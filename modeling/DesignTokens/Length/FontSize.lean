import DesignTokens.Length.Conversion
import DesignTokens.OrderedMap
import DesignTokens.Stylesheet.Declaration

/-!
Font sizes in a stylesheet. A rule measures `em` by the last font size in pixels that any rule with
the same selector sets; sizes are not inherited. On this rests the conversion of a whole stylesheet.
-/
namespace DesignTokens

/-- The font sizes of selectors in pixels; a size of zero counts as none. -/
def fontSizes (b : LengthBases) (t : Text) : OrderedMap Text Float :=
  (Declaration.parse t).foldl (fun sizes d =>
    let size := Length.pixels b d.value
    if d.property = "font-size".toList ∧ !(size == 0.0) then sizes.insert d.selector size
    else sizes)
    .empty

/-- The bases in the rules of a selector. -/
def LengthBases.forSelector (b : LengthBases) (sizes : OrderedMap Text Float) (selector : Text) :
    LengthBases :=
  b.withRuleSize ((sizes.get? selector).getD b.context)

/-- A stylesheet with every length in its values converted. -/
def Conversion.convertSheet (b : LengthBases) (chain : List Conversion) (t : Text) : Text :=
  if chain.isEmpty then t
  else
    let sizes := fontSizes b t
    Sheet.mapValues
      (fun selector _ value => convert (b.forSelector sizes selector) chain value) t

end DesignTokens
