import DesignTokens.Color.Hsl

/-!
The counterpart of a color in a dark theme, by one of three rules. Each keeps light and dark away
from the ends of the scale and gives whole channels in range.
-/
namespace DesignTokens

/-- The rules: `flip` reverses the lightness, `invert` reverses each channel, `tone` reverses a
softened lightness and takes some saturation away. -/
inductive DarkMethod where
  | flip
  | invert
  | tone
  deriving DecidableEq, Repr

namespace DarkMethod

def all : List DarkMethod := [flip, invert, tone]

def name : DarkMethod → String
  | flip => "flip"
  | invert => "invert"
  | tone => "tone"

def ofName? (t : Text) : Option DarkMethod := all.find? fun a => a.name.toList = t

end DarkMethod

namespace Rgba

open Number

/-- A color of less saturation than 0.08 loses it altogether. -/
def flipped (c : Rgba) : Except NumberFault Rgba := do
  let hsl ← Hsl.ofRgba c
  let saturation := if hsl.saturation < 0.08 then 0.0 else hsl.saturation
  let lightness := clamp (1.0 - hsl.lightness) 0.08 0.92
  return (Hsl.toRgba ⟨hsl.hue, saturation, lightness, hsl.alpha⟩).clamped

def inverted (c : Rgba) : Rgba :=
  let reversed (channel : Float) := clamp (255.0 - channel) 10.0 245.0
  (Rgba.mk (reversed c.red) (reversed c.green) (reversed c.blue) c.alpha).clamped

def toned (c : Rgba) : Except NumberFault Rgba := do
  let hsl ← Hsl.ofRgba c
  let lightness := clamp (1.0 - hsl.lightness * 0.9) 0.1 0.92
  let saturation := clamp (hsl.saturation * 0.9) 0.0 1.0
  return (Hsl.toRgba ⟨hsl.hue, saturation, lightness, hsl.alpha⟩).clamped

def dark (algorithm : DarkMethod) (c : Rgba) : Except NumberFault Rgba :=
  match algorithm with
  | .flip => flipped c
  | .invert => .ok (inverted c)
  | .tone => toned c

end Rgba

end DesignTokens
