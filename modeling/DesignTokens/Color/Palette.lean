import DesignTokens.Candidates
import DesignTokens.Color.Luminance
import DesignTokens.Number.Logarithm

/-!
The palette of a stylesheet: its colors in order of discovery, each with the measures by which roles
are assigned. A selector is read for hints: parts of the page, links and buttons, focus, disabled
states.
-/
namespace DesignTokens

namespace Selector

def hasWord (spelling : Text.Spelling) (word selector : Text) : Bool :=
  (Text.firstToken? (fun before t =>
    let isWhole := !before.any Text.isWord && !Text.nextIs Text.isWord (t.drop word.length)
    if spelling.matches word t && isWhole then some word.length else none) selector).isSome

def isBody (selector : Text) : Bool := hasWord .exact "body".toList selector

def isInteractive (selector : Text) : Bool :=
  hasWord .anyCase "a".toList selector || Text.containsNoCase "button".toList selector ||
    Text.containsNoCase ":hover".toList selector

def focusParts : List Text := ["focus".toList, "skip-link".toList, "screen-reader".toList]

def isFocus (selector : Text) : Bool := focusParts.any (Text.occursIn · selector)

def isDisabled (selector : Text) : Bool := Text.occursIn "disabled".toList selector

end Selector

/-- A color of a palette with its measures; `frequency` grows with the logarithm of the count. -/
structure PaletteColor where
  literal : Text
  count : Nat
  properties : List Text
  selectors : List Text
  hsl : Hsl
  luminance : Float
  frequency : Float

namespace PaletteColor

def ofCandidate (literal : Text) (c : ColorCandidate) : Except NumberFault PaletteColor := do
  let color ← Rgba.ofLiteral literal
  let hsl ← Hsl.ofRgba color
  return ⟨literal, c.count, c.properties.keys, c.selectors, hsl, color.luminance,
    Number.logOnePlus c.count⟩

def isNearGray (c : PaletteColor) : Bool := c.hsl.isNearGray

def isVivid (c : PaletteColor) : Bool := c.hsl.isVivid

def isApartFrom (other : Option PaletteColor) (c : PaletteColor) : Bool :=
  other.all fun o => c.hsl.isApart o.hsl

def isUsedBy (properties : List String) (c : PaletteColor) : Bool :=
  properties.any fun p => c.properties.contains p.toList

end PaletteColor

/-- Colors with the measures by which roles are assigned, in order of discovery. -/
abbrev Palette := List PaletteColor

def Palette.ofTable (colors : ColorTable) : Except NumberFault Palette :=
  colors.entries.mapM fun (literal, c) => PaletteColor.ofCandidate literal c

end DesignTokens
