import DesignTokens.Color.Assignment
import DesignTokens.Token.Name
import DesignTokens.Token.Order

/-!
The tokens of a stylesheet. Colors with a role are named for it; all other literals are named within
their category. Categories of features that are not enabled have no tokens.
-/
namespace DesignTokens

namespace Category

def feature : Category → Feature
  | spacing => .spacing
  | borderWidths => .borders
  | radii => .radius
  | shadows => .shadows
  | durations | easings => .motion
  | fontFamilies | fontSizes | lineHeights | fontWeights | letterSpacings => .typography

end Category

structure TokenTables where
  semantic : TokenMap := .empty
  numbered : TokenMap := .empty
  tables : OrderedMap Category TokenMap := .empty

namespace TokenTables

def table (t : TokenTables) (c : Category) : TokenMap := (t.tables.get? c).getD .empty

/-- All color tokens: those with a role, then the numbered ones. -/
def colors (t : TokenTables) : TokenMap := t.semantic.union t.numbered

def nameColors (config : Config) (free : Palette) : TokenMap :=
  .ofLiterals ⟨config.nameStart .color, config.naming, 2, []⟩ (free.map (·.literal))

def nameCategory (config : Config) (c : Category) (table : CandidateTable) : TokenMap :=
  if config.has c.feature then
    .ofLiterals { start := config.nameStart (.category c), mode := config.naming }
      (c.order config.bases table)
  else .empty

def ofCandidates (candidates : Candidates) (roles : RoleAssignment) (config : Config) :
    TokenTables where
  semantic := if config.has .colors then roles.named else .empty
  numbered := if config.has .colors then nameColors config roles.unassigned else .empty
  tables := .ofList (Category.all.map fun c => (c, nameCategory config c (candidates.table c)))

end TokenTables

end DesignTokens
