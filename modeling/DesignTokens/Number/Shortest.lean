import DesignTokens.Number.FixedPoint

/-!
The decimal with the fewest digits that reads back as the same number, and its layout: positional
from 10^-4 up to below 10^16 and with a power of ten elsewhere.

A positive number m · 2^q stands for all reals between the midpoints to its neighbours, ends
included when m is even. On the grid of decimals with a given count of digits, a grid point lies in
that interval only if one of the two points next to m · 2^q does, so those two are tested, from one
digit upward.
-/
namespace DesignTokens.Number

open Float.Model (UnpackedFloat)

/-- A positive rational number as numerator and denominator. -/
structure Ratio where
  numerator : Nat
  denominator : Nat

namespace Ratio

def scale (r : Ratio) (base : Nat) (power : Int) : Ratio :=
  if power < 0 then ⟨r.numerator, r.denominator * Nat.pow base (-power).toNat⟩
  else ⟨r.numerator * Nat.pow base power.toNat, r.denominator⟩

def le (a b : Ratio) : Bool := a.numerator * b.denominator ≤ b.numerator * a.denominator

def lt (a b : Ratio) : Bool := a.numerator * b.denominator < b.numerator * a.denominator

end Ratio

/-- The reals that round to m · 2^q. -/
structure Interval where
  low : Ratio
  high : Ratio
  closed : Bool

def Interval.contains (i : Interval) (r : Ratio) : Bool :=
  if i.closed then i.low.le r && r.le i.high else i.low.lt r && r.lt i.high

/-- The lower neighbour of a power of two is half as far away as the upper one. -/
def roundingInterval (m : Nat) (q : Int) : Interval :=
  let lowest : Int := -1074
  if m = Nat.pow 2 52 ∧ lowest < q then
    ⟨Ratio.scale ⟨4 * m - 1, 1⟩ 2 (q - 2), Ratio.scale ⟨2 * m + 1, 1⟩ 2 (q - 1), m % 2 = 0⟩
  else
    ⟨Ratio.scale ⟨2 * m - 1, 1⟩ 2 (q - 1), Ratio.scale ⟨2 * m + 1, 1⟩ 2 (q - 1), m % 2 = 0⟩

/-- The power of ten of the first digit: 10^k ≤ r < 10^(k+1), sought upward from `k`. -/
def leadingPower (r : Ratio) : Nat → Int → Int
  | 0, k => k
  | fuel + 1, k => if (Ratio.scale ⟨1, 1⟩ 10 (k + 1)).le r then leadingPower r fuel (k + 1) else k

/-- The grid points n · 10^e next to the number that lie in the interval, the nearer first. -/
def gridHit? (value : Ratio) (i : Interval) (e : Int) : Option Nat :=
  let units := value.scale 10 (-e)
  let below := units.numerator / units.denominator
  let point (n : Nat) : Ratio := Ratio.scale ⟨n, 1⟩ 10 e
  let nearest := roundDiv units.numerator units.denominator
  let other := if nearest = below then below + 1 else below
  if i.contains (point nearest) then some nearest
  else if i.contains (point other) then some other
  else none

def shortestFrom (value : Ratio) (i : Interval) (top : Int) : Nat → Nat → Nat × Int
  | 0, count => (0, top - count)
  | fuel + 1, count =>
    let e := top - count + 1
    match gridHit? value i e with
    | some n => (n, e)
    | none => shortestFrom value i top fuel (count + 1)

/-- Digits n and power e with n · 10^e the shortest decimal of m · 2^q. -/
def shortest (m : Nat) (q : Int) : Nat × Int :=
  let value := Ratio.scale ⟨m, 1⟩ 2 q
  let top := leadingPower value 700 (-330)
  shortestFrom value (roundingInterval m q) top 17 1

def powerText (power : Int) : Text :=
  let size := digits power.natAbs
  'e' :: (if power < 0 then '-' else '+') ::
    (List.replicate (2 - size.length) '0' ++ size)

/-- Digits d1 d2 … dk with the value 0.d1 d2 … dk · 10^point. -/
def layout (ds : Text) (point : Int) : Text :=
  if point ≤ -4 ∨ 16 < point then
    let mantissa :=
      match ds with
      | [d] => [d]
      | d :: rest => d :: '.' :: rest
      | [] => []
    mantissa ++ powerText (point - 1)
  else if point ≤ 0 then
    "0.".toList ++ List.replicate (-point).toNat '0' ++ ds
  else
    let whole := point.toNat
    if ds.length ≤ whole then ds ++ List.replicate (whole - ds.length) '0' ++ ".0".toList
    else ds.take whole ++ '.' :: ds.drop whole

/-- A number as the shortest text that reads back as it. -/
def shortestText (x : Float) : Text :=
  match x.toModel.unpack with
  | .finite sign m q _ =>
    let (n, e) := shortest m q
    let ds := digits n
    signText sign ++ layout (dropTrailing '0' ds) (e + ds.length)
  | .zero sign => signText sign ++ "0.0".toList
  | .infinity sign => signText sign ++ "inf".toList
  | .notANumber => "nan".toList

end DesignTokens.Number
