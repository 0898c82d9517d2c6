import DesignTokens.Number.FixedPoint

/-!
Colors in the red-green-blue model, with channels from 0 to 255 and opacity from 0 to 1. Channels
need not be whole and are not held to their range; `clamped` brings them there.
-/
namespace DesignTokens

structure Rgba where
  red : Float
  green : Float
  blue : Float
  alpha : Float
  deriving Repr

namespace Rgba

def black : Rgba := ⟨0.0, 0.0, 0.0, 1.0⟩

def gray (level : Int) (alpha : Float) : Rgba :=
  let v := Float.ofInt level
  ⟨v, v, v, alpha⟩

/-- The color, refused where a channel is not finite. -/
def finite? (c : Rgba) : Except NumberFault Rgba :=
  match [c.red, c.green, c.blue].findSome? Number.wholeFault? with
  | some fault => .error fault
  | none => .ok c

/-- The nearest whole level of a channel in its range. -/
def level (channel : Float) : Nat := (min 255 (max 0 (Number.nearest channel))).toNat

def clamped (c : Rgba) : Rgba :=
  ⟨Float.ofNat (level c.red), Float.ofNat (level c.green), Float.ofNat (level c.blue),
    Number.clamp c.alpha 0.0 1.0⟩

/-- The form `#rrggbb` of an opaque color, and `rgba(r, g, b, a)` of any other. -/
def text (c : Rgba) : Text :=
  let channels := [level c.red, level c.green, level c.blue]
  if c.alpha == 1.0 then '#' :: channels.flatMap (Text.hexDigits 2)
  else
    "rgba(".toList ++ channels.flatMap (fun n => Number.digits n ++ ", ".toList) ++
      Number.trimmed 4 c.alpha ++ [')']

end Rgba

end DesignTokens
