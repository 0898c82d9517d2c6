import DesignTokens.Text.Basic

/-!
Families of properties whose values hold lengths or times of one kind.
-/
namespace DesignTokens.Property

def spacingBases : List Text :=
  ["margin".toList, "padding".toList, "gap".toList, "column-gap".toList, "row-gap".toList]

def sides : List Text := [[], "-top".toList, "-right".toList, "-bottom".toList, "-left".toList]

def spacing : List Text := spacingBases.flatMap fun base => sides.map fun side => base ++ side

/-- Margins, paddings and gaps, for all sides or one. A line feed may end the name. -/
def isSpacing (property : Text) : Bool :=
  spacing.any fun name => name.isPrefixOf property && Text.atEnd (property.drop name.length)

def isBorder (property : Text) : Bool :=
  "border".toList.isPrefixOf property || "outline".toList.isPrefixOf property

def motion : List Text :=
  ["transition".toList, "transition-duration".toList, "transition-timing-function".toList,
    "animation".toList, "animation-duration".toList, "animation-timing-function".toList]

def isMotion (property : Text) : Bool := motion.contains property

end DesignTokens.Property
