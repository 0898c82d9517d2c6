import DesignTokens.Color.Basic

/-!
Relative luminance of a color: the weighted sum of its channels, each freed from the gamma curve of
its encoding. Black has 0 and white has 1.
-/
namespace DesignTokens.Rgba

/-- A channel without the gamma curve, from 0 to 1. -/
def linearChannel (channel : Float) : Float :=
  let c := channel / 255.0
  if c ≤ 0.03928 then c / 12.92 else ((c + 0.055) / 1.055).pow 2.4

def luminance (c : Rgba) : Float :=
  0.2126 * linearChannel c.red + 0.7152 * linearChannel c.green + 0.0722 * linearChannel c.blue

/-- Does a finite channel leave the range of numbers when it is freed from the gamma curve? -/
def overflows (channel : Float) : Bool :=
  Number.isFinite channel && !Number.isFinite (linearChannel channel)

/-- The luminance, refused where a finite channel is too large for it. -/
def luminance? (c : Rgba) : Except NumberFault Float :=
  if overflows c.red || overflows c.green || overflows c.blue then .error .resultOutOfRange
  else .ok c.luminance

end DesignTokens.Rgba
