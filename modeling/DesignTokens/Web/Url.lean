import DesignTokens.Text.Quoted
import DesignTokens.Web.Address

/-!
Addresses of resources: reading them into their parts, writing them, and resolving a reference
against the address of the page that it stands on.
-/
namespace DesignTokens

inductive UrlError where
  | unbalancedBrackets
  | notAnAddress (host : Text)
  | bracketedIpv4
  | badFutureAddress
  | deceptiveHost (authority : Text)
  deriving DecidableEq, Repr

namespace UrlError

def message : UrlError → Text
  | unbalancedBrackets => "Invalid IPv6 URL".toList
  | notAnAddress host =>
    Text.quoted host ++ " does not appear to be an IPv4 or IPv6 address".toList
  | bracketedIpv4 => "An IPv4 address cannot be in brackets".toList
  | badFutureAddress => "IPvFuture address is invalid".toList
  | deceptiveHost authority =>
    "netloc '".toList ++ authority ++
      "' contains invalid characters under NFKC normalization".toList

end UrlError

structure Url where
  scheme : Text
  authority : Text
  path : Text
  parameters : Text
  query : Text
  fragment : Text
  deriving DecidableEq, Repr

namespace Url

def schemes (names : List String) : List Text := names.map String.toList

/-- The schemes whose references can be relative; the empty one stands for no scheme. -/
def relativeSchemes : List Text :=
  schemes ["", "ftp", "http", "gopher", "nntp", "imap", "wais", "file", "https", "shttp", "mms",
    "prospero", "rtsp", "rtspu", "sftp", "svn", "svn+ssh", "ws", "wss"]

/-- The schemes with an authority. -/
def authoritySchemes : List Text :=
  schemes ["", "ftp", "http", "gopher", "nntp", "telnet", "imap", "wais", "file", "mms", "https",
    "shttp", "snews", "prospero", "rtsp", "rtspu", "rsync", "svn", "svn+ssh", "sftp", "nfs", "git",
    "git+ssh", "ws", "wss"]

/-- The schemes with parameters after the path. -/
def parameterSchemes : List Text :=
  schemes ["", "ftp", "hdl", "prospero", "http", "imap", "https", "shttp", "rtsp", "rtspu", "sip",
    "sips", "mms", "sftp", "tel"]

def isSchemeChar (c : Char) : Bool := c.isAlphanum || c == '+' || c == '-' || c == '.'

/-- The text without control characters and blanks in front, and without line breaks and tabs. -/
def cleaned (t : Text) : Text :=
  (t.dropWhile (·.toNat ≤ 0x20)).filter fun c => c != '\t' && c != '\r' && c != '\n'

/-- The scheme before the first colon, in lower case, and what follows the colon. -/
def cutScheme? (t : Text) : Option (Text × Text) :=
  match Text.cut ':' t with
  | (c :: name, some rest) =>
    if c.isAlpha && name.all isSchemeChar then some ((c :: name).map Char.toLower, rest) else none
  | _ => none

def isAuthorityChar (c : Char) : Bool := c != '/' && c != '?' && c != '#'

def cutAuthority : Text → Text × Text
  | '/' :: '/' :: rest => (rest.takeWhile isAuthorityChar, rest.dropWhile isAuthorityChar)
  | t => ([], t)

/-- The form of addresses of future versions: `v`, a version and a point, and more. -/
def isFutureAddress : Text → Bool
  | 'v' :: rest =>
    let version := rest.takeWhile Color.isHexDigit
    match rest.dropWhile Color.isHexDigit with
    | '.' :: _ :: _ => !version.isEmpty
    | _ => false
  | _ => false

/-- The authority without the name of a user, which ends at the last `@`. -/
def hostPart (authority : Text) : Text := (authority.reverse.takeWhile (· != '@')).reverse

/-- The host in an authority with brackets. A bracket opens at the start of the host, and only a
port follows where it closes; brackets in the name of a user do not count. -/
def bracketedHost (authority : Text) : Except UrlError Text :=
  match Text.cut '[' (hostPart authority) with
  | (host, none) => .ok (Text.cut ':' host).1
  | (_ :: _, some _) => .error .unbalancedBrackets
  | ([], some inside) =>
    match Text.cut ']' inside with
    | (host, some (c :: _)) => if c = ':' then .ok host else .error .unbalancedBrackets
    | (host, _) => .ok host

/-- Is a host in brackets an address of version 6 or of a future version? -/
def checkHost (host : Text) : Except UrlError Unit :=
  if host.head? = some 'v' then
    if isFutureAddress host then .ok () else .error .badFutureAddress
  else if Web.isIpv4 host then .error .bracketedIpv4
  else if Web.isIpv6 host then .ok ()
  else .error (.notAnAddress host)

def checkBrackets (authority : Text) : Except UrlError Unit :=
  match authority.any (· == '['), authority.any (· == ']') with
  | false, false => .ok ()
  | true, true => do checkHost (← bracketedHost authority)
  | _, _ => .error .unbalancedBrackets

/-- Characters that look like one of the separators of an address, or like several characters with
one among them. -/
def lookalikes : List Nat := [
    0x2047, 0x2048, 0x2049, 0x2100, 0x2101, 0x2105, 0x2106, 0x2A74, 0xFE13, 0xFE16, 0xFE55, 0xFE56,
    0xFE5F, 0xFE6B, 0xFF03, 0xFF0F, 0xFF1A, 0xFF1F, 0xFF20]

def checkLookalikes (authority : Text) : Except UrlError Unit :=
  if authority.any fun c => lookalikes.contains c.toNat then .error (.deceptiveHost authority)
  else .ok ()

/-- A path without its parameters, which follow the first `;` of its last segment, and these. -/
def cutParameters (path : Text) : Text × Text :=
  let last := (path.reverse.takeWhile (· != '/')).reverse
  match Text.cut ';' last with
  | (name, some parameters) => (path.take (path.length - last.length) ++ name, parameters)
  | (_, none) => (path, [])

def parse (scheme t : Text) : Except UrlError Url := do
  let (scheme, rest) := (cutScheme? (cleaned t)).getD (scheme, cleaned t)
  let (authority, rest) := cutAuthority rest
  checkBrackets authority
  let (rest, fragment) := Text.cut '#' rest
  let (path, query) := Text.cut '?' rest
  checkLookalikes authority
  let (path, parameters) :=
    if parameterSchemes.contains scheme then cutParameters path else (path, [])
  return ⟨scheme, authority, path, parameters, query.getD [], fragment.getD []⟩

/-- A part with its mark in front; nothing if it is empty. -/
def marked (mark : Char) (part : Text) : Text := if part.isEmpty then [] else mark :: part

/-- The path with the authority in front. An empty authority is written where the scheme has one,
unless the path starts with two slashes itself. -/
def location (u : Url) : Text :=
  let path := u.path ++ marked ';' u.parameters
  let hasAuthority := !u.authority.isEmpty ||
    (!u.scheme.isEmpty && authoritySchemes.contains u.scheme && !"//".toList.isPrefixOf path)
  if hasAuthority then
    let rooted := if path.isEmpty || path.head? = some '/' then path else '/' :: path
    "//".toList ++ u.authority ++ rooted
  else path

def text (u : Url) : Text :=
  (if u.scheme.isEmpty then [] else u.scheme ++ [':']) ++ u.location ++ marked '?' u.query ++
    marked '#' u.fragment

/-- The segments of a path without `.` and `..`; each `..` takes back the segment before it. -/
def resolveDots (done : List Text) : List Text → List Text
  | [] => done
  | segment :: rest =>
    if segment = "..".toList then resolveDots done.dropLast rest
    else if segment = ".".toList then resolveDots done rest
    else resolveDots (done ++ [segment]) rest

/-- The segments without the empty ones between the first and the last. -/
def dropInnerEmpty : List Text → List Text
  | [] => []
  | first :: rest => first :: rest.dropLast.filter (!·.isEmpty) ++ rest.getLast?.toList

def directory (path : Text) : List Text :=
  let segments := Text.splitOn '/' path
  if segments.getLast? = some [] then segments else segments.dropLast

/-- A path relative to the path of a page. -/
def resolvePath (base path : Text) : Text :=
  let segments :=
    if path.head? = some '/' then Text.splitOn '/' path
    else dropInnerEmpty (directory base ++ Text.splitOn '/' path)
  let isDirectory := segments.getLast?.any fun s => s = ".".toList || s = "..".toList
  let resolved := Text.join ['/'] (resolveDots [] segments ++ if isDirectory then [[]] else [])
  if resolved.isEmpty then ['/'] else resolved

/-- A reference with what it leaves out taken from the address of the page. -/
def resolve (base reference : Url) : Url :=
  let authority :=
    if authoritySchemes.contains reference.scheme then base.authority else reference.authority
  if reference.path.isEmpty && reference.parameters.isEmpty then
    { reference with
      authority := authority
      path := base.path
      parameters := base.parameters
      query := if reference.query.isEmpty then base.query else reference.query }
  else { reference with authority := authority, path := resolvePath base.path reference.path }

def join (base reference : Text) : Except UrlError Text :=
  if base.isEmpty then .ok reference
  else if reference.isEmpty then .ok base
  else do
    let page ← parse [] base
    let target ← parse page.scheme reference
    if target.scheme ≠ page.scheme || !relativeSchemes.contains target.scheme then return reference
    if authoritySchemes.contains target.scheme && !target.authority.isEmpty then return target.text
    return (resolve page target).text

def isWeb (t : Text) : Except UrlError Bool := do
  let url ← parse [] t
  return url.scheme = "http".toList || url.scheme = "https".toList

end Url

end DesignTokens
