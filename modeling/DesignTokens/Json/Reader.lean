import DesignTokens.Json.Value
import DesignTokens.Number.Decimal

/-!
JSON read from text. The reader goes from left to right and stops at the first fault, which it
reports with the place where it stands. Beyond the standard it takes `NaN`, `Infinity` and
`-Infinity`; a member name may come again, and then its last value counts. Arrays and objects are
read down to a fixed depth.
-/
namespace DesignTokens

inductive JsonFault where
  | byteOrderMark
  | expectedValue
  | expectedName
  | expectedColon
  | expectedComma
  | extraData
  | unterminatedString
  | controlCharacter
  | badEscape
  | badUnicodeEscape
  deriving DecidableEq, Repr

namespace JsonFault

def message : JsonFault → String
  | byteOrderMark => "Unexpected UTF-8 BOM (decode using utf-8-sig)"
  | expectedValue => "Expecting value"
  | expectedName => "Expecting property name enclosed in double quotes"
  | expectedColon => "Expecting ':' delimiter"
  | expectedComma => "Expecting ',' delimiter"
  | extraData => "Extra data"
  | unterminatedString => "Unterminated string starting at"
  | controlCharacter => "Invalid control character at"
  | badEscape => "Invalid \\escape"
  | badUnicodeEscape => "Invalid \\uXXXX escape"

end JsonFault

inductive JsonContainer where
  | array
  | object
  deriving DecidableEq, Repr

def JsonContainer.name : JsonContainer → String
  | array => "array"
  | object => "object"

/-- Why a text is not read as JSON: a fault and the count of characters before it, a whole number
with more digits than are read, or an array or object inside of more others than are read. -/
inductive JsonError where
  | fault (cause : JsonFault) (position : Nat)
  | tooManyDigits (count : Nat)
  | tooDeep (container : JsonContainer)
  deriving DecidableEq, Repr

namespace JsonError

/-- The message for a reader of `source`, with line and column counted from 1. -/
def message (source : Text) : JsonError → String
  | fault cause position =>
    let before := source.take position
    let line := before.count '\n' + 1
    let column := (before.reverse.takeWhile (· != '\n')).length + 1
    s!"{cause.message}: line {line} column {column} (char {position})"
  | tooManyDigits count => Decimal.tooManyDigits count
  | tooDeep container =>
    s!"maximum recursion depth exceeded while decoding a JSON {container.name} from a unicode " ++
      "string"

end JsonError

namespace Json

/-- What is left to read, and how many characters stand before it. -/
structure Cursor where
  position : Nat
  rest : Text

namespace Cursor

def advance (c : Cursor) (n : Nat) : Cursor := ⟨c.position + n, c.rest.drop n⟩

def isSpace (c : Char) : Bool := c == ' ' || c == '\t' || c == '\n' || c == '\r'

def skipSpace (c : Cursor) : Cursor := c.advance (c.rest.takeWhile isSpace).length

def fail {α : Type} (c : Cursor) (cause : JsonFault) : Except JsonError α :=
  .error (.fault cause c.position)

end Cursor

def hexValue? (t : Text) : Option Nat :=
  let digit? (c : Char) := if c.toNat < 128 then Decimal.digitInBase? 16 c else none
  t.foldlM (fun n c => (digit? c).map (16 * n + ·)) 0

/-- The value of the four hexadecimal digits after an escape's `u`, which stands at the cursor. At
least one more character has to follow them. -/
def readUnit (c : Cursor) : Except JsonError Nat :=
  let ds := (c.rest.drop 1).take 4
  match hexValue? ds with
  | some n => if 5 < c.rest.length then .ok n else c.fail .badUnicodeEscape
  | none => c.fail .badUnicodeEscape

def isHighSurrogate (n : Nat) : Bool := 0xD800 ≤ n && n < 0xDC00
def isLowSurrogate (n : Nat) : Bool := 0xDC00 ≤ n && n < 0xE000

def pointOfUnit (n : Nat) : CodePoint :=
  if isHighSurrogate n || isLowSurrogate n then .ofUnit n
  else .char (Char.ofNat n)

/-- The code point of a `u` escape, with the low half of a pair if it follows. -/
def readUnicodeEscape (c : Cursor) : Except JsonError (CodePoint × Cursor) := do
  let high ← readUnit c
  let next := c.advance 5
  match next.rest with
  | '\\' :: 'u' :: after =>
    if isHighSurrogate high && 4 < after.length then
      let low ← readUnit (next.advance 1)
      if isLowSurrogate low then
        let n := 0x10000 + (high - 0xD800) * 0x400 + (low - 0xDC00)
        .ok (.char (Char.ofNat n), next.advance 6)
      else .ok (pointOfUnit high, next)
    else .ok (pointOfUnit high, next)
  | _ => .ok (pointOfUnit high, next)

def simpleEscape? : Char → Option Char
  | '"' => some '"'
  | '\\' => some '\\'
  | '/' => some '/'
  | 'b' => some '\x08'
  | 'f' => some '\x0c'
  | 'n' => some '\n'
  | 'r' => some '\r'
  | 't' => some '\t'
  | _ => none

/-- The rest of a string whose opening quote stands at `start`; `done` is what has been read, in
reverse. Every step takes a character, so the length of the text bounds the steps. -/
def readString (start : Nat) : Nat → CodeText → Cursor → Except JsonError (CodeText × Cursor)
  | 0, _, _ => .error (.fault .unterminatedString start)
  | fuel + 1, done, c =>
    match c.rest with
    | [] => .error (.fault .unterminatedString start)
    | '"' :: _ => .ok (done.reverse, c.advance 1)
    | '\\' :: [] => .error (.fault .unterminatedString start)
    | '\\' :: 'u' :: _ => do
      let (point, next) ← readUnicodeEscape (c.advance 1)
      readString start fuel (point :: done) next
    | '\\' :: e :: _ =>
      match simpleEscape? e with
      | some ch => readString start fuel (.char ch :: done) (c.advance 2)
      | none => c.fail .badEscape
    | ch :: _ =>
      if ch.toNat ≤ 0x1F then c.fail .controlCharacter
      else readString start fuel (.char ch :: done) (c.advance 1)

def isAsciiDigit (c : Char) : Bool := '0' ≤ c && c ≤ '9'

/-- A number, and where it ends. A point or a power without digits is left unread. -/
def readNumber (c : Cursor) : Except JsonError (Json × Cursor) :=
  let (sign, unsigned) : Text × Text :=
    match c.rest with
    | '-' :: rest => (['-'], rest)
    | t => ([], t)
  let whole := match unsigned with
    | '0' :: _ => ['0']
    | t => t.takeWhile isAsciiDigit
  if whole.isEmpty then c.fail .expectedValue
  else
    let rest := unsigned.drop whole.length
    let fraction := match rest with
      | '.' :: after =>
        let ds := after.takeWhile isAsciiDigit
        if ds.isEmpty then [] else '.' :: ds
      | _ => []
    let rest := rest.drop fraction.length
    let power := match rest with
      | e :: after =>
        if e = 'e' ∨ e = 'E' then
          let (powerSign, after) : Text × Text :=
            match after with
            | '+' :: r => (['+'], r)
            | '-' :: r => (['-'], r)
            | r => ([], r)
          let ds := after.takeWhile isAsciiDigit
          if ds.isEmpty then [] else e :: powerSign ++ ds
        else []
      | [] => []
    let text := sign ++ whole ++ fraction ++ power
    let next := c.advance text.length
    if fraction.isEmpty && power.isEmpty then
      if Decimal.digitLimit < whole.length then .error (.tooManyDigits whole.length)
      else
        let size : Int := Decimal.digitsValue whole
        .ok (.int (if sign.isEmpty then size else -size), next)
    else
      match Decimal.scan? text with
      | some (d, _) => .ok (.float d.toFloat, next)
      | none => c.fail .expectedValue

def keywords : List (Text × Json) := [
  ("null".toList, .null), ("true".toList, .bool true), ("false".toList, .bool false),
  ("NaN".toList, .float Number.notANumber), ("Infinity".toList, .float Number.infinity),
  ("-Infinity".toList, .float (-Number.infinity))]

def readKeyword? (c : Cursor) : Option (Json × Cursor) :=
  (keywords.find? fun (word, _) => word.isPrefixOf c.rest).map fun (word, value) =>
    (value, c.advance word.length)

/-- How many arrays and objects may be inside of each other. -/
def depthLimit : Nat := 988

mutual

/-- One value at the cursor, with no more than `depth` arrays and objects inside of each other. Each
level of nesting and each item takes at least one character, so twice the length of the text bounds
the depth of the calls. -/
def readValue (depth : Nat) : Nat → Cursor → Except JsonError (Json × Cursor)
  | 0, c => c.fail .expectedValue
  | fuel + 1, c =>
    match c.rest with
    | '"' :: _ => do
      let (t, next) ← readString c.position c.rest.length [] (c.advance 1)
      .ok (.string t, next)
    | '{' :: _ =>
      if depth = 0 then .error (.tooDeep .object)
      else
        let inner := (c.advance 1).skipSpace
        match inner.rest with
        | '}' :: _ => .ok (.object [], inner.advance 1)
        | _ => do
          let (members, next) ← readMembers (depth - 1) fuel inner
          .ok (objectOf members, next)
    | '[' :: _ =>
      if depth = 0 then .error (.tooDeep .array)
      else
        let inner := (c.advance 1).skipSpace
        match inner.rest with
        | ']' :: _ => .ok (.array [], inner.advance 1)
        | _ => do
          let (items, next) ← readItems (depth - 1) fuel inner
          .ok (.array items, next)
    | _ =>
      match readKeyword? c with
      | some found => .ok found
      | none => readNumber c

/-- The items up to the closing bracket; at least one. -/
def readItems (depth : Nat) : Nat → Cursor → Except JsonError (List Json × Cursor)
  | 0, c => c.fail .expectedValue
  | fuel + 1, c => do
    let (item, next) ← readValue depth fuel c
    let next := next.skipSpace
    match next.rest with
    | ']' :: _ => .ok ([item], next.advance 1)
    | ',' :: _ =>
      let (items, last) ← readItems depth fuel (next.advance 1).skipSpace
      .ok (item :: items, last)
    | _ => next.fail .expectedComma

/-- The members up to the closing brace; at least one. -/
def readMembers (depth : Nat) : Nat → Cursor → Except JsonError (List (CodeText × Json) × Cursor)
  | 0, c => c.fail .expectedName
  | fuel + 1, c =>
    match c.rest with
    | '"' :: _ => do
      let (name, next) ← readString c.position c.rest.length [] (c.advance 1)
      let next := next.skipSpace
      match next.rest with
      | ':' :: _ =>
        let (value, next) ← readValue depth fuel (next.advance 1).skipSpace
        let next := next.skipSpace
        match next.rest with
        | '}' :: _ => .ok ([(name, value)], next.advance 1)
        | ',' :: _ =>
          let (members, last) ← readMembers depth fuel (next.advance 1).skipSpace
          .ok ((name, value) :: members, last)
        | _ => next.fail .expectedComma
      | _ => next.fail .expectedColon
    | _ => c.fail .expectedName

end

def parse (t : Text) : Except JsonError Json :=
  match t with
  | '\uFEFF' :: _ => .error (.fault .byteOrderMark 0)
  | _ => do
    let (value, next) ← readValue depthLimit (2 * t.length + 1) (Cursor.skipSpace ⟨0, t⟩)
    let next := next.skipSpace
    if next.rest.isEmpty then .ok value else next.fail .extraData

end Json

end DesignTokens
