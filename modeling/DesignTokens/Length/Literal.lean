import DesignTokens.Length.Unit
import DesignTokens.Number.Decimal
import DesignTokens.Text.LetterCase
import DesignTokens.Text.Token

/-!
Length literals: a numeral and a unit. In a value a length has to be a whole token: it does not
start inside a name or a number, and no further letter, digit or `%` follows. A literal by itself is
measured in pixels where that is possible.
-/
namespace DesignTokens.Length

/-- A numeral and one of `units` at the start of a text, and what follows. -/
def scan? (units : List LengthUnit) (spelling : Text.Spelling) (t : Text) :
    Option (Numeral × LengthUnit × Text) := do
  let (numeral, rest) ← Numeral.scan? t
  let unit ← units.find? fun u => spelling.matches u.name rest
  return (numeral, unit, rest.drop unit.name.length)

/-- A numeral and a unit that are the whole text. -/
def parse? (units : List LengthUnit) (spelling : Text.Spelling) (t : Text) :
    Option (Numeral × LengthUnit) :=
  match scan? units spelling t with
  | some (numeral, unit, []) => some (numeral, unit)
  | _ => none

/-- Characters after which a new length or name cannot start. -/
def joinsNext (c : Char) : Bool := Text.isWord c || c == '.' || c == '-'

def tokenOf (units : List LengthUnit) (spelling : Text.Spelling) : Text.Recognizer :=
  fun before t =>
  match scan? units spelling t with
  | some (_, _, rest) =>
    if before.any joinsNext || Text.nextIs (fun c => Text.isWord c || c == '%') rest then none
    else some (t.length - rest.length)
  | none => none

def convertible : Text.Recognizer := tokenOf LengthUnit.known .anyCase

/-- The lengths that are counted; `ch` is not among their units. -/
def candidate : Text.Recognizer := tokenOf [.px, .rem, .em, .percent, .vh, .vw] .exact

def literals (value : Text) : List Text := Text.tokens candidate value

def firstLiteral? (value : Text) : Option Text := Text.firstToken? candidate value

/-- A rank for lengths: pixels where the unit depends on a font size, the bare number for the
others, and 0 for what is no length. -/
def rank (b : LengthBases) (literal : Text) : Float :=
  match parse? [.px, .rem, .em, .percent, .vh, .vw] .exact (Text.trim literal) with
  | some (n, .rem) => b.inPixels .rem n.toFloat
  | some (n, .em) => b.inPixels .em n.toFloat
  | some (n, _) => n.toFloat
  | none => 0.0

/-- A length in px, rem or em as pixels; 0 for anything else. -/
def pixels (b : LengthBases) (literal : Text) : Float :=
  match parse? [.px, .rem, .em] .anyCase (Text.trim literal) with
  | some (n, unit) => b.inPixels unit n.toFloat
  | none => 0.0

/-- A count of pixels that is a multiple of four as root font sizes; anything else as it is. -/
def inRootSizes (b : LengthBases) (literal : Text) : Except NumberFault Text :=
  match scan? [.px] .exact literal with
  | some (n, _, rest) =>
    if Text.atEnd rest && Number.modulo n.toFloat 4 == 0.0 then
      (b.fromPixels .rem n.toFloat).map fun size => lengthText size .rem
    else .ok literal
  | none => .ok literal

end DesignTokens.Length
