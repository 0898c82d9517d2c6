import DesignTokens.Length.Literal

/-!
Ranks of line heights and font weights. They only serve to put literals in order.
-/
namespace DesignTokens.Font

/-- A line height as a number: a bare number as it is, a length in pixels, `normal` as 1.2 and
anything else as 0. -/
def lineHeightRank (b : LengthBases) (literal : Text) : Float :=
  let t := Text.lower (Text.trim literal)
  if t = "normal".toList then 1.2
  else
    match Numeral.scan? t with
    | some (n, []) => n.toFloat
    | _ => Length.pixels b t

/-- A weight of three digits as it is; keywords by their place between the weights; 0 otherwise. -/
def weightRank (literal : Text) : Nat :=
  let t := Text.lower (Text.trim literal)
  if t.length = 3 ∧ t.all Text.isDigit then Decimal.digitsValue t
  else if t = "normal".toList then 400
  else if t = "bold".toList then 700
  else if t = "lighter".toList ∨ t = "bolder".toList then 500
  else 0

end DesignTokens.Font
