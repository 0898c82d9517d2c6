import DesignTokens.Number.Binary64
import DesignTokens.Text.LetterCase

/-!
Numbers read from text. A `Decimal` is the exact value of a numeral, ±mantissa · 10^exponent;
`toFloat` takes the nearest binary64 number. A `Numeral` is the short form in which stylesheets
write lengths and times: an optional minus, digits, and digits after a point.
-/
namespace DesignTokens

structure Decimal where
  negative : Bool
  mantissa : Nat
  exponent : Int
  deriving DecidableEq, Repr

namespace Decimal

/-- The nearest binary64 number. Sizes of 10^400 and more are infinite, sizes below 10^-400 are
zero, whatever their digits. -/
def toFloat (d : Decimal) : Float :=
  let places := (Nat.toDigits 10 d.mantissa).length
  let size : Float :=
    if d.mantissa = 0 ∨ d.exponent + places < -400 then 0.0
    else if 400 < d.exponent + places then Number.infinity
    else if d.exponent < 0 then Float.ofScientific d.mantissa true (-d.exponent).toNat
    else Float.ofScientific d.mantissa false d.exponent.toNat
  if d.negative then -size else size

def digitsValue (t : Text) : Nat := t.foldl (fun n c => 10 * n + (Text.digit? c).getD 0) 0

def splitDigits (t : Text) : Text × Text := (t.takeWhile Text.isDigit, t.dropWhile Text.isDigit)

/-- A sign, if there is one: is it a minus, and what follows. -/
def scanSign : Text → Bool × Text
  | '-' :: rest => (true, rest)
  | '+' :: rest => (false, rest)
  | t => (false, t)

/-- A power of ten after `e` or `E`; none is read where no digit follows. -/
def scanExponent (t : Text) : Int × Text :=
  match t with
  | c :: rest =>
    if c = 'e' ∨ c = 'E' then
      let (negative, rest) := scanSign rest
      match splitDigits rest with
      | ([], _) => (0, t)
      | (power, rest) =>
        let size : Int := digitsValue power
        (if negative then -size else size, rest)
    else (0, t)
  | [] => (0, t)

/-- The longest numeral at the start: sign, digits with at most one point among or beside them,
power of ten. -/
def scan? (t : Text) : Option (Decimal × Text) :=
  let (negative, t) := scanSign t
  let (whole, afterWhole) := splitDigits t
  let (fraction, rest) :=
    match afterWhole with
    | '.' :: afterPoint => splitDigits afterPoint
    | _ => ([], afterWhole)
  if whole.isEmpty && fraction.isEmpty then none
  else
    let (power, rest) := scanExponent rest
    some (⟨negative, digitsValue (whole ++ fraction), power - fraction.length⟩, rest)

/-- The number at the start of a text, blanks before it skipped. -/
def leading? (t : Text) : Option Float := (scan? (Text.trimLeft t)).map (·.1.toFloat)

def floatAtStart (default : Float) (t : Text) : Float := (leading? t).getD default

/-- Blanks that may surround a number; the four separators U+001C to U+001F may not. -/
def isMargin (c : Char) : Bool := Text.isBlank c && !(0x1C ≤ c.toNat && c.toNat ≤ 0x1F)

def trimMargin (t : Text) : Text :=
  ((t.dropWhile isMargin).reverse.dropWhile isMargin).reverse

/-- The text without its underscores, each of which has to stand between two digits. -/
def ungroup? (isDigit : Char → Bool) : Option Char → Text → Option Text
  | _, [] => some []
  | before, c :: rest =>
    if c = '_' then
      if before.any isDigit && Text.nextIs isDigit rest then ungroup? isDigit (some c) rest
      else none
    else (ungroup? isDigit (some c) rest).map (c :: ·)

/-- A whole text that is a number: a numeral, an infinity or the value that is not a number. -/
def float? (t : Text) : Option Float :=
  let t := trimMargin t
  let (negative, size) := scanSign t
  let name := String.ofList (size.map Char.toLower)
  if name = "inf" ∨ name = "infinity" then
    some (if negative then -Number.infinity else Number.infinity)
  else if name = "nan" then some Number.notANumber
  else
    match (ungroup? Text.isDigit none t).bind scan? with
    | some (d, []) => some d.toFloat
    | _ => none

/-- The value of a digit in a base up to 16. -/
def digitInBase? (base : Nat) (c : Char) : Option Nat :=
  let value :=
    match Text.digit? c with
    | some n => some n
    | none =>
      let n := c.toLower.toNat
      if 'a'.toNat ≤ n ∧ n ≤ 'f'.toNat then some (n - 'a'.toNat + 10) else none
  value.filter (· < base)

def int? (base : Nat) (t : Text) : Option Int :=
  let (negative, size) := scanSign (trimMargin t)
  match ungroup? (fun c => (digitInBase? base c).isSome) none size with
  | some (c :: rest) =>
    let value := (c :: rest).foldlM (fun n c => (digitInBase? base c).map (base * n + ·)) 0
    value.map fun (n : Nat) => if negative then -(n : Int) else n
  | _ => none

/-- The most digits of a whole number that is read from decimal text. -/
def digitLimit : Nat := 4300

def tooManyDigits (count : Nat) : String :=
  s!"Exceeds the limit ({digitLimit} digits) for integer string conversion: value has {count} " ++
    "digits; use sys.set_int_max_str_digits() to increase the limit"

/-- A whole text that is a whole number in decimal, with no more digits than are read. -/
def whole? (t : Text) : Option Int :=
  if digitLimit < (t.filter Text.isDigit).length then none else int? 10 t

end Decimal

/-- Digits, a point with digits after it, or both, with an optional minus. -/
structure Numeral where
  negative : Bool
  whole : Text
  fraction : Option Text
  deriving DecidableEq, Repr

namespace Numeral

def text (n : Numeral) : Text :=
  (if n.negative then ['-'] else []) ++ n.whole ++
    match n.fraction with
    | some digits => '.' :: digits
    | none => []

def decimal (n : Numeral) : Decimal :=
  let fraction := n.fraction.getD []
  ⟨n.negative, Decimal.digitsValue (n.whole ++ fraction), -(fraction.length : Int)⟩

def toFloat (n : Numeral) : Float := n.decimal.toFloat

/-- The longest unsigned numeral at the start; a point without digits after it is no part of it. -/
def scanSize? (negative : Bool) (t : Text) : Option (Numeral × Text) :=
  let (whole, rest) := Decimal.splitDigits t
  let plain := if whole.isEmpty then none else some (⟨negative, whole, none⟩, rest)
  match rest with
  | '.' :: afterPoint =>
    match Decimal.splitDigits afterPoint with
    | ([], _) => plain
    | (fraction, rest) => some (⟨negative, whole, some fraction⟩, rest)
  | _ => plain

def scan? : Text → Option (Numeral × Text)
  | '-' :: rest => scanSize? true rest
  | t => scanSize? false t

end Numeral

end DesignTokens
