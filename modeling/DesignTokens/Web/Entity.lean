import DesignTokens.Color.Literal
import DesignTokens.Text.CharTable
import DesignTokens.Web.EntityTable
import DesignTokens.Web.MarkupError

/-!
Character references in HTML: `&` with a name, or with `#` and a number. Old names are read without
a semicolon too, and then also at the start of a longer word. Numbers that stand for no character
are replaced by U+FFFD or by nothing, and those of an old encoding by the characters that it had
there.
-/
namespace DesignTokens.Entity

/-- The characters at 0x80 to 0x9F of the encoding that old pages use. -/
def oldEncoding : List Nat := [
    0x20AC, 0x81, 0x201A, 0x192, 0x201E, 0x2026, 0x2020, 0x2021, 0x2C6, 0x2030, 0x160, 0x2039,
    0x152, 0x8D, 0x17D, 0x8F, 0x90, 0x2018, 0x2019, 0x201C, 0x201D, 0x2022, 0x2013, 0x2014, 0x2DC,
    0x2122, 0x161, 0x203A, 0x153, 0x9D, 0x17E, 0x178]

/-- Control characters and code points that are no characters. -/
def isNoCharacter (n : Nat) : Bool :=
  Text.inRanges [(0x1, 0x8), (0xB, 0xB), (0xE, 0x1F), (0x7F, 0x9F), (0xFDD0, 0xFDEF)] n ||
    n % 0x10000 = 0xFFFE || n % 0x10000 = 0xFFFF

/-- The text that a number stands for. -/
def ofNumber (n : Nat) : Text :=
  if n = 0 then ['\uFFFD']
  else if 0x80 ≤ n ∧ n ≤ 0x9F then [Char.ofNat (oldEncoding.getD (n - 0x80) 0)]
  else if n > 0x10FFFF ∨ (0xD800 ≤ n ∧ n ≤ 0xDFFF) then ['\uFFFD']
  else if isNoCharacter n then []
  else [Char.ofNat n]

/-- The character of a name that needs no semicolon. -/
def openName? (name : Text) : Option Char := (openNames.lookup (String.ofList name)).map Char.ofNat

/-- The text of a name with a semicolon after it. -/
def closedName? (name : Text) : Option Text :=
  let key := String.ofList name
  match openNames.lookup key <|> closedNames.lookup key with
  | some c => some [Char.ofNat c]
  | none => (pairNames.lookup key).map fun (c, d) => [Char.ofNat c, Char.ofNat d]

/-- The longest open name of at least two letters at the start of a word, and how long it is. -/
def nameAtStart? (word : Text) : Nat → Option (Char × Nat)
  | 0 | 1 => none
  | n + 2 =>
    match openName? (word.take (n + 2)) with
    | some c => some (c, n + 2)
    | none => nameAtStart? word (n + 1)

def ofName (name : Text) (closed : Bool) : Text :=
  let word := if closed then name ++ [';'] else name
  match if closed then closedName? name else (openName? name).map fun c => [c] with
  | some t => t
  | none =>
    match nameAtStart? word (word.length - 1) with
    | some (c, n) => c :: word.drop n
    | none => '&' :: word

def isNamePart (c : Char) : Bool :=
  !(c == '\t' || c == '\n' || c == '\x0C' || c == ' ' || c == '<' || c == '&' || c == '#' ||
    c == ';')

/-- A semicolon at the start of a text: is it there, and how long it is. -/
def semicolon (t : Text) : Bool × Nat := if t.head? = some ';' then (true, 1) else (false, 0)

/-- The digits of a number after its `#`, and their base. A letter x is in front of hexadecimal
digits. -/
inductive Numeral where
  | decimal (digits : Text)
  | hexadecimal (digits : Text)
  deriving DecidableEq, Repr

namespace Numeral

def scan? (t : Text) : Option Numeral :=
  match t with
  | [] => none
  | x :: rest =>
    if x.isDigit then some (.decimal (t.takeWhile Char.isDigit))
    else if (x = 'x' ∨ x = 'X') ∧ rest.head?.any Color.isHexDigit then
      some (.hexadecimal (rest.takeWhile Color.isHexDigit))
    else none

def length : Numeral → Nat
  | decimal digits => digits.length
  | hexadecimal digits => digits.length + 1

def digitsIn (base : Nat) (digits : Text) : Nat :=
  digits.foldl (fun n c => base * n + (Decimal.digitInBase? base c).getD 0) 0

/-- The value of a numeral. Decimal digits are read up to a limit. -/
def value : Numeral → Except MarkupError Nat
  | decimal digits =>
    if Decimal.digitLimit < digits.length then .error (.tooManyDigits digits.length)
    else .ok (digitsIn 10 digits)
  | hexadecimal digits => .ok (digitsIn 16 digits)

end Numeral

/-- A reference after its `&`: the text that it stands for, and how long it is. -/
def read? (t : Text) : Except MarkupError (Option (Text × Nat)) := do
  match t with
  | '#' :: rest =>
    match Numeral.scan? rest with
    | none => return none
    | some numeral =>
      let length := numeral.length + (semicolon (rest.drop numeral.length)).2
      return some (ofNumber (← numeral.value), length + 1)
  | t =>
    let name := (t.take 32).takeWhile isNamePart
    let (closed, length) := semicolon (t.drop name.length)
    return if name.isEmpty then none else some (ofName name closed, name.length + length)

/-- A text of which the next `skip` characters belong to a reference that is replaced already. -/
def decodeFrom : Nat → Text → Except MarkupError Text
  | _, [] => return []
  | skip + 1, _ :: rest => decodeFrom skip rest
  | 0, c :: rest => do
    if c = '&' then
      match ← read? rest with
      | some (replacement, n) => return replacement ++ (← decodeFrom n rest)
      | none => return c :: (← decodeFrom 0 rest)
    else return c :: (← decodeFrom 0 rest)

def decode (t : Text) : Except MarkupError Text := decodeFrom 0 t

end DesignTokens.Entity
