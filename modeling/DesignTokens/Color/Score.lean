import DesignTokens.Color.Palette

/-!
How well a color fits each role: the sum of a few rewards for its luminance, saturation and
frequency, for the properties that use it and for the selectors that it stands under.
-/
namespace DesignTokens

namespace PaletteColor

def reward (given : Bool) (points score : Float) : Float := if given then score + points else score

def foregroundScore (c : PaletteColor) : Float :=
  (1.0 - c.luminance) * 2.0 + c.frequency * 0.4
    |> reward (c.isUsedBy ["color"]) 1.0
    |> reward (c.selectors.any Selector.isBody) 2.0

def fallbackForegroundScore (c : PaletteColor) : Float := 1.0 - c.luminance + c.frequency * 0.3

def backgroundScore (c : PaletteColor) : Float :=
  c.luminance * 2.0 + c.frequency * 0.3
    |> reward (c.isUsedBy ["background", "background-color"]) 0.7
    |> reward (c.selectors.any Selector.isBody) 2.0

def primaryScore (c : PaletteColor) : Float :=
  let score :=
    c.hsl.saturation * 2.0 + c.frequency * 0.4
      |> reward (c.selectors.any Selector.isInteractive) 1.5
      |> reward (c.isUsedBy ["color", "background", "border", "border-color"]) 0.7
  score + if 0.2 < c.luminance && c.luminance < 0.9 then 0.3 else -0.2

def secondaryScore (c : PaletteColor) : Float := c.hsl.saturation + c.frequency * 0.3

def accentScore (c : PaletteColor) : Float := c.hsl.saturation + c.frequency * 0.25

def nearness (level : Float) (c : PaletteColor) : Float := 1.0 - (c.luminance - level).abs

def borderScore (c : PaletteColor) : Float :=
  reward (c.isUsedBy ["border", "border-color"]) 1.0 (c.nearness 0.88 * 1.5) + c.frequency * 0.2

def surface1Score (c : PaletteColor) : Float :=
  reward (c.isUsedBy ["background", "background-color"]) 0.6 (c.nearness 0.96 * 1.4) +
    c.frequency * 0.2

def surface2Score (c : PaletteColor) : Float :=
  reward (c.isUsedBy ["background", "background-color"]) 0.5 (c.nearness 0.9 * 1.2) +
    c.frequency * 0.2

def outlineScore (c : PaletteColor) : Float :=
  (0.0
    |> reward (c.isUsedBy ["outline"]) 2.0
    |> reward (c.selectors.any Selector.isFocus) 1.0
    |> reward c.isNearGray 0.3) - (c.luminance - 0.75).abs

def mutedScore (c : PaletteColor) : Float := c.nearness 0.5 + c.frequency * 0.1

def disabledScore (c : PaletteColor) : Float :=
  reward (c.selectors.any Selector.isDisabled) 1.5 0.0 + c.nearness 0.6

end PaletteColor

/-- The best of two, by a score: the first unless the second is better. -/
def Palette.better (score : PaletteColor → Float) (a b : PaletteColor) : PaletteColor :=
  if score b > score a then b else a

/-- The color with the highest score; of equals the first. -/
def Palette.best? (score : PaletteColor → Float) : Palette → Option PaletteColor
  | [] => none
  | c :: rest => some (rest.foldl (better score) c)

end DesignTokens
