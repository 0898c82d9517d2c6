import DesignTokens.Color.Basic

/-!
The hue-saturation-lightness model: hue in degrees, saturation and lightness from 0 to 1, and the
conversions from and to red, green and blue.
-/
namespace DesignTokens

structure Hsl where
  hue : Float
  saturation : Float
  lightness : Float
  alpha : Float
  deriving Repr

namespace Hsl

open Number

/-- A color by its hue, saturation and lightness. Channels outside their range can have a saturation
with divisor zero. -/
def ofRgba (c : Rgba) : Except NumberFault Hsl := do
  let r := c.red / 255.0
  let g := c.green / 255.0
  let b := c.blue / 255.0
  let high := larger (larger r g) b
  let low := smaller (smaller r g) b
  let lightness := (high + low) / 2.0
  let delta := high - low
  if delta == 0.0 then return ⟨0.0, 0.0, lightness, c.alpha⟩
  let saturation ←
    if lightness > 0.5 then divide delta (2.0 - high - low) else divide delta (high + low)
  let sector :=
    if high == r then (g - b) / delta + (if g < b then 6.0 else 0.0)
    else if high == g then (b - r) / delta + 2.0
    else (r - g) / delta + 4.0
  return ⟨sector * 60.0, saturation, lightness, c.alpha⟩

/-- A channel at position `t` of the color circle, between the levels `p` and `q`. -/
def channelAt (p q t : Float) : Float :=
  let t := modulo t 1
  if t < 1.0 / 6.0 then p + (q - p) * 6.0 * t
  else if t < 1.0 / 2.0 then q
  else if t < 2.0 / 3.0 then p + (q - p) * (2.0 / 3.0 - t) * 6.0
  else p

/-- Red, green and blue with whole levels. Saturation and lightness are held to their range, so
every channel is finite; the hue goes round the circle. -/
def toRgba (c : Hsl) : Rgba :=
  let hue := modulo c.hue 360
  let saturation := clamp c.saturation 0.0 1.0
  let lightness := clamp c.lightness 0.0 1.0
  if saturation == 0.0 then Rgba.gray (nearest (lightness * 255.0)) c.alpha
  else
    let q :=
      if lightness < 0.5 then lightness * (1.0 + saturation)
      else lightness + saturation - lightness * saturation
    let p := 2.0 * lightness - q
    let turn := hue / 360.0
    let level (t : Float) := Float.ofInt (nearest (channelAt p q t * 255.0))
    ⟨level (turn + 1.0 / 3.0), level turn, level (turn - 1.0 / 3.0), c.alpha⟩

def isNearGray (c : Hsl) : Bool := c.saturation ≤ 0.10

def isVivid (c : Hsl) : Bool := c.saturation ≥ 0.22

/-- Distance over hue as a part of the circle, saturation and lightness. The hue is not taken round
the circle, so it only tells whether two colors differ. -/
def distance (a b : Hsl) : Float :=
  let h := (a.hue - b.hue).abs / 360.0
  let s := (a.saturation - b.saturation).abs
  let l := (a.lightness - b.lightness).abs
  (h * h + s * s + l * l).sqrt

/-- Far enough apart to be told from each other. -/
def isApart (a b : Hsl) : Bool := distance a b > 0.18

end Hsl

end DesignTokens
