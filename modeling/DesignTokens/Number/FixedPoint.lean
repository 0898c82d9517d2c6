import DesignTokens.Number.Binary64
import DesignTokens.Text.Basic

/-!
Numbers written with a fixed count of decimal places: the exact value is rounded to the nearest
multiple of the last place, and a tie goes to the even neighbour.
-/
namespace DesignTokens.Number

open Float.Model (UnpackedFloat)

/-- The whole number nearest to a quotient; of two equally near the even one. -/
def roundDiv (numerator denominator : Nat) : Nat :=
  let quotient := numerator / denominator
  let twice := 2 * (numerator % denominator)
  if twice < denominator then quotient
  else if denominator < twice then quotient + 1
  else quotient + quotient % 2

/-- m · 2^q in units of 10^-places, rounded. -/
def scaled (m : Nat) (q : Int) (places : Nat) : Nat :=
  let units := m * Nat.pow 10 places
  if q < 0 then roundDiv units (Nat.pow 2 (-q).toNat) else units * Nat.pow 2 q.toNat

def digits (n : Nat) : Text := Nat.toDigits 10 n

/-- A whole number of units of 10^-places, with a point if there are places. -/
def unitsText (places n : Nat) : Text :=
  if places = 0 then digits n
  else
    let all := digits n
    let padded := List.replicate (places + 1 - all.length) '0' ++ all
    padded.take (padded.length - places) ++ '.' :: padded.drop (padded.length - places)

def signText : UnpackedFloat.Sign → Text
  | .positive => []
  | .negative => ['-']

def fixed (places : Nat) (x : Float) : Text :=
  match x.toModel.unpack with
  | .finite sign m q _ => signText sign ++ unitsText places (scaled m q places)
  | .zero sign => signText sign ++ unitsText places 0
  | .infinity sign => signText sign ++ "inf".toList
  | .notANumber => "nan".toList

def dropTrailing (c : Char) (t : Text) : Text := (t.reverse.dropWhile (· == c)).reverse

/-- A number with at most `places` decimal places: no zero at the end of a fraction, and no sign on
a zero. -/
def trimmed (places : Nat) (x : Float) : Text :=
  let text := fixed places x
  let text := if text.contains '.' then dropTrailing '.' (dropTrailing '0' text) else text
  if text = ['-', '0'] then ['0'] else text

end DesignTokens.Number
