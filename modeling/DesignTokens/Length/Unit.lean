import DesignTokens.Number.FixedPoint

/-!
Units of length and the sizes in pixels that relative units stand for.
-/
namespace DesignTokens

inductive LengthUnit where
  | px
  | rem
  | em
  | vh
  | vw
  | percent
  | ch
  | other (name : Text)
  deriving DecidableEq, Repr

namespace LengthUnit

def known : List LengthUnit := [px, rem, em, vh, vw, percent, ch]

def name : LengthUnit → Text
  | px => "px".toList
  | rem => "rem".toList
  | em => "em".toList
  | vh => "vh".toList
  | vw => "vw".toList
  | percent => "%".toList
  | ch => "ch".toList
  | other name => name

def ofName? (t : Text) : Option LengthUnit := known.find? fun u => u.name = t

/-- The unit of a name; names that are not known are kept. -/
def ofName (t : Text) : LengthUnit := (ofName? t).getD (other t)

end LengthUnit

/-- What relative units are measured by, in pixels: the root font size, the font size of the rule,
the viewport, the base of percentages and the width of a character. -/
structure LengthBases where
  root : Float := 16.0
  context : Float := 16.0
  viewportWidth : Float := 100.0
  viewportHeight : Float := 100.0
  percentBase : Float := 100.0
  character : Float := 1.0
  deriving Repr

namespace LengthBases

def withRuleSize (b : LengthBases) (size : Float) : LengthBases := { b with context := size }

/-- A size in pixels. A unit that is not known counts as character widths. -/
def inPixels (b : LengthBases) (unit : LengthUnit) (size : Float) : Float :=
  match unit with
  | .px => size
  | .rem => size * b.root
  | .em => size * b.context
  | .vh => size * b.viewportHeight / 100.0
  | .vw => size * b.viewportWidth / 100.0
  | .percent => size * b.percentBase / 100.0
  | .ch | .other _ => size * b.character

/-- A size in pixels as a size in another unit, refused where the base of that unit is zero. -/
def fromPixels (b : LengthBases) (unit : LengthUnit) (px : Float) : Except NumberFault Float :=
  match unit with
  | .px => .ok px
  | .rem => Number.divide px b.root
  | .em => Number.divide px b.context
  | .vh => (Number.divide px b.viewportHeight).map (· * 100.0)
  | .vw => (Number.divide px b.viewportWidth).map (· * 100.0)
  | .percent => (Number.divide px b.percentBase).map (· * 100.0)
  | .ch | .other _ => Number.divide px b.character

end LengthBases

/-- A length with at most four decimal places. -/
def lengthText (size : Float) (unit : LengthUnit) : Text := Number.trimmed 4 size ++ unit.name

end DesignTokens
