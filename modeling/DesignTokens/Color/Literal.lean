import DesignTokens.Color.Hsl
import DesignTokens.Number.Decimal
import DesignTokens.Text.Token

/-!
Color literals in stylesheet values: `#` with 3, 4, 6 or 8 hexadecimal digits, and calls of `rgb`,
`rgba`, `hsl` and `hsla` with no call among their arguments. `literals` finds them in a value, and
`Rgba.ofLiteral` gives the color of a literal; what it cannot read is black.
-/
namespace DesignTokens

namespace Color

def isHexDigit (c : Char) : Bool :=
  ('0' ≤ c && c ≤ '9') || ('a' ≤ c && c ≤ 'f') || ('A' ≤ c && c ≤ 'F')

/-- The length of a run of hexadecimal digits that has the length of a color and ends its word. -/
def hexLength? (t : Text) : Option Nat :=
  let n := (t.takeWhile isHexDigit).length
  if (n = 3 ∨ n = 4 ∨ n = 6 ∨ n = 8) ∧ !Text.nextIs Text.isWord (t.drop n) then some n else none

def callHeads : List Text :=
  ["rgb(".toList, "rgba(".toList, "hsl(".toList, "hsla(".toList]

/-- The length of a color call: its head, arguments without parentheses, the closing parenthesis. -/
def callLength? (t : Text) : Option Nat := do
  let head ← callHeads.find? (·.isPrefixOf t)
  let arguments := (t.drop head.length).takeWhile (fun c => c != '(' && c != ')')
  let close := t.drop (head.length + arguments.length)
  if !arguments.isEmpty && Text.nextIs (· == ')') close then
    some (head.length + arguments.length + 1)
  else none

def token : Text.Recognizer := fun _ t =>
  match t with
  | '#' :: rest => (hexLength? rest).map (· + 1)
  | t => callLength? t

def literals (value : Text) : List Text := Text.tokens token value

/-- The arguments of a call. Without a comma among them they stand between blanks, and an opacity
follows a `/`. -/
def arguments (literal : Text) : List Text :=
  let inner := Text.beforeLast ')' (Text.after '(' literal)
  if inner.contains ',' then (Text.splitOn ',' inner).map Text.trim
  else
    let (head, tail) := Text.cut '/' inner
    let alpha := Text.trim (tail.getD [])
    Text.words head ++ if alpha.isEmpty then [] else [alpha]

def endsWith (c : Char) (t : Text) : Bool := t.getLast? == some c

/-- Opacity as a number or a percentage. Missing or unreadable, it is full; a percentage that cannot
be read is a hundredth of that. -/
def opacity (text : Option Text) : Float :=
  match text.map Text.trim with
  | none | some [] => 1.0
  | some t =>
    let value := Decimal.floatAtStart 1.0 t
    Number.clamp (if endsWith '%' t then value / 100.0 else value) 0.0 1.0

/-- The argument at an index; a missing or empty one is `0`. -/
def argument (arguments : List Text) (i : Nat) : Text :=
  match arguments[i]? with
  | some (c :: rest) => c :: rest
  | _ => ['0']

/-- A channel as a number from 0 to 255 or as a percentage, which is rounded to a whole level. -/
def parseChannel (t : Text) : Except NumberFault Float :=
  let value := Decimal.floatAtStart 0.0 t
  if endsWith '%' t then
    (Number.nearest? (value * 2.55)).map fun n => Number.clamp (Float.ofInt n) 0.0 255.0
  else .ok (Number.clamp value 0.0 255.0)

def parseFraction (t : Text) : Float :=
  let value := Decimal.floatAtStart 0.0 t
  if endsWith '%' t then value / 100.0 else value

end Color

namespace Rgba

open Color

/-- Channels of one hexadecimal digit each, which counts twice. -/
def ofShortHex? (digits : Text) : Option Rgba := do
  let channels ← digits.mapM fun c => (Decimal.int? 16 [c, c]).map Float.ofInt
  match channels with
  | [r, g, b] => some ⟨r, g, b, 1.0⟩
  | [r, g, b, a] => some ⟨r, g, b, a / 255.0⟩
  | _ => none

def ofLongHex? (digits : Text) : Option Rgba := do
  let channel (i : Nat) := (Decimal.int? 16 ((digits.drop i).take 2)).map Float.ofInt
  let r ← channel 0
  let g ← channel 2
  let b ← channel 4
  if digits.length = 8 then some ⟨r, g, b, (← channel 6) / 255.0⟩ else some ⟨r, g, b, 1.0⟩

def ofHex (literal : Text) : Rgba :=
  let digits := (Text.trim literal).dropWhile (· == '#')
  let color :=
    if digits.length = 3 ∨ digits.length = 4 then ofShortHex? digits
    else if digits.length = 6 ∨ digits.length = 8 then ofLongHex? digits
    else none
  color.getD black

def ofRgbCall (literal : Text) : Except NumberFault Rgba := do
  let parts := arguments literal
  let r ← parseChannel (argument parts 0)
  let g ← parseChannel (argument parts 1)
  let b ← parseChannel (argument parts 2)
  return ⟨r, g, b, opacity parts[3]?⟩

def ofHslCall (literal : Text) : Rgba :=
  let parts := arguments literal
  let hue := Decimal.floatAtStart 0.0 (parts.head?.getD [])
  Hsl.toRgba
    ⟨hue, parseFraction (argument parts 1), parseFraction (argument parts 2), opacity parts[3]?⟩

def ofLiteral (literal : Text) : Except NumberFault Rgba :=
  let t := Text.lower (Text.trim literal)
  if "#".toList.isPrefixOf t then .ok (ofHex t)
  else if "rgb".toList.isPrefixOf t then ofRgbCall t
  else if "hsl".toList.isPrefixOf t then .ok (ofHslCall t)
  else .ok black

end Rgba

end DesignTokens
