import DesignTokens.Number.Binary64

/-!
The natural logarithm of 1 + n for a whole number n. The argument is written as 2^k · (1 + f) with
1 + f between √2/2 and √2, and log (1 + f) is an odd series in s = f / (2 + f), cut off after the
seventh term; what is lost in forming 1 + n comes back as a correction.
-/
namespace DesignTokens.Number

/-- Binary exponent and fraction of a positive number: x = 2^k · (1 + f). -/
def splitNearOne (x : Float) : Int × Float :=
  match x.toModel.unpack with
  | .finite _ m q _ =>
    let top := m.log2
    let mantissa := ofDyadic .positive m (-(top : Int))
    let k := q + top
    if m * Nat.pow 2 52 < 0x16A09E * Nat.pow 2 (top + 32) then (k, mantissa - 1.0)
    else (k + 1, mantissa * 0.5 - 1.0)
  | _ => (0, 0.0)

def seriesCoefficients : List Float := [
  6.666666666666735130e-01, 3.999999999940941908e-01, 2.857142874366239149e-01,
  2.222219843214978396e-01, 1.818357216161805012e-01, 1.531383769920937332e-01,
  1.479819860511658591e-01]

def logSeries (z : Float) : Float :=
  match seriesCoefficients with
  | [a, b, c, d, e, f, g] =>
    let z2 := z * z
    let z4 := z2 * z2
    let z6 := z4 * z2
    z * a + z2 * (b + z * c) + z4 * (d + z * e) + z6 * (f + z * g)
  | _ => 0.0

/-- ln 2 in two parts, the first with trailing zero bits, so that its product with a small whole
number is exact. -/
def ln2High : Float := 6.93147180369123816490e-01
def ln2Low : Float := 1.90821492927058770002e-10

/-- log (1 + n) for positive n. -/
def logOnePlusPositive (n : Float) : Float :=
  let u := 1.0 + n
  let (k, f) := splitNearOne u
  let kf := Float.ofInt k
  let lost := (if k > 0 then 1.0 - (u - n) else n - (u - 1.0)) / u
  let half := 0.5 * f * f
  if f == 0.0 then kf * ln2High + (lost + kf * ln2Low)
  else
    let s := f / (2.0 + f)
    let r := logSeries (s * s)
    kf * ln2High - ((half - (s * (half + r) + (kf * ln2Low + lost))) - f)

/-- log (1 + n) of a whole number. -/
def logOnePlus (n : Nat) : Float := if n = 0 then 0.0 else logOnePlusPositive (Float.ofNat n)

end DesignTokens.Number
