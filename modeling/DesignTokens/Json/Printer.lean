import DesignTokens.Json.Value

/-!
JSON written as ASCII text: in one line, or with one member or item per line. Characters beyond
ASCII are written as escapes of their UTF-16 units.
-/
namespace DesignTokens.Json

def escapeUnit (n : Nat) : Text := "\\u".toList ++ Text.hexDigits 4 n

def escapeChar (c : Char) : Text :=
  let n := c.toNat
  if c = '"' ∨ c = '\\' then ['\\', c]
  else if c = '\n' then "\\n".toList
  else if c = '\r' then "\\r".toList
  else if c = '\t' then "\\t".toList
  else if n = 0x8 then "\\b".toList
  else if n = 0xC then "\\f".toList
  else if 0x20 ≤ n ∧ n < 0x7F then [c]
  else if n < 0x10000 then escapeUnit n
  else escapeUnit (0xD800 + (n - 0x10000) / 0x400) ++ escapeUnit (0xDC00 + (n - 0x10000) % 0x400)

def escapePoint : CodePoint → Text
  | .char c => escapeChar c
  | .half n => escapeUnit (0xD800 + n)

def quote (t : CodeText) : Text := '"' :: t.flatMap escapePoint ++ ['"']

def numberText (x : Float) : Text :=
  if Number.isFinite x then Number.shortestText x
  else if x > 0.0 then "Infinity".toList
  else if x < 0.0 then "-Infinity".toList
  else "NaN".toList

/-- The values that are written without brackets. -/
def atom? : Json → Option Text
  | null => some "null".toList
  | bool true => some "true".toList
  | bool false => some "false".toList
  | int n => some (intText n)
  | float x => some (numberText x)
  | string t => some (quote t)
  | array [] => some "[]".toList
  | object [] => some "\x7b\x7d".toList
  | _ => none

/-- Line breaks and indentation between items: none, or `some depth` levels of two blanks. -/
abbrev Layout := Option Nat

def Layout.deeper : Layout → Layout := Option.map (· + 1)

def Layout.break : Layout → Text
  | none => []
  | some depth => '\n' :: List.replicate (2 * depth) ' '

def Layout.comma : Layout → Text
  | none => ", ".toList
  | some depth => ',' :: Layout.break (some depth)

mutual

def print (layout : Layout) : Json → Text
  | array (item :: rest) =>
    '[' :: layout.deeper.break ++ printItems layout.deeper (item :: rest) ++ layout.break ++ [']']
  | object (member :: rest) =>
    '\x7b' :: layout.deeper.break ++ printMembers layout.deeper (member :: rest) ++
      layout.break ++ ['\x7d']
  | value => (atom? value).getD []

def printItems (layout : Layout) : List Json → Text
  | [] => []
  | [item] => print layout item
  | item :: rest => print layout item ++ layout.comma ++ printItems layout rest

def printMembers (layout : Layout) : List (CodeText × Json) → Text
  | [] => []
  | [(name, value)] => quote name ++ ": ".toList ++ print layout value
  | (name, value) :: rest =>
    quote name ++ ": ".toList ++ print layout value ++ layout.comma ++ printMembers layout rest

end

def compact (value : Json) : Text := print none value

def indented (value : Json) : Text := print (some 0) value

end DesignTokens.Json
