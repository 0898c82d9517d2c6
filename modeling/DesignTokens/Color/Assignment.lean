import DesignTokens.Color.Role
import DesignTokens.Color.Score

/-!
Assignment of colors to roles. The roles are filled in a fixed order, each with the best color among
those that no role holds and that suit it, so no color has two roles. What is left over is ranked by
count.
-/
namespace DesignTokens

structure RoleAssignment where
  roles : List (Role × Option PaletteColor)
  unassigned : Palette

namespace RoleAssignment

def holder? (role : Role) (filled : List (Role × Option PaletteColor)) : Option PaletteColor :=
  (filled.lookup role).join

/-- The best of the colors that suit; an empty literal counts as no color. -/
def choose? (suits : PaletteColor → Bool) (score : PaletteColor → Float) (free : Palette) :
    Option PaletteColor :=
  (Palette.best? score (free.filter suits)).filter fun c => !c.literal.isEmpty

/-- The color for a role, given the roles that are filled and the colors that are free. Foreground
and disabled fall back on all free colors if no gray one is left. -/
def pick? (filled : List (Role × Option PaletteColor)) (free : Palette) : Role → Option PaletteColor
  | .foreground =>
    (choose? (·.isNearGray) (·.foregroundScore) free).orElse fun _ =>
      free.best? (·.fallbackForegroundScore)
  | .background => free.best? (·.backgroundScore)
  | .primary => Palette.best? (·.primaryScore) (free.filter (·.isVivid))
  | .secondary =>
    Palette.best? (·.secondaryScore) <|
      free.filter fun c => c.isVivid && c.isApartFrom (holder? .primary filled)
  | .accent =>
    Palette.best? (·.accentScore) <|
      free.filter fun c =>
        c.isVivid && c.isApartFrom (holder? .primary filled) &&
          c.isApartFrom (holder? .secondary filled)
  | .border => Palette.best? (·.borderScore) (free.filter (·.isNearGray))
  | .surface1 => Palette.best? (·.surface1Score) (free.filter (·.isNearGray))
  | .surface2 => Palette.best? (·.surface2Score) (free.filter (·.isNearGray))
  | .outline => free.best? (·.outlineScore)
  | .muted => Palette.best? (·.mutedScore) (free.filter (·.isNearGray))
  | .disabled =>
    (choose? (·.isNearGray) (·.disabledScore) free).orElse fun _ => free.best? (·.mutedScore)

def without (taken : Option PaletteColor) (free : Palette) : Palette :=
  taken.elim free fun t => free.filter fun c => c.literal != t.literal

/-- Each role in turn takes its color from those that are free. -/
def fill (filled : List (Role × Option PaletteColor)) (free : Palette) :
    List Role → List (Role × Option PaletteColor) × Palette
  | [] => (filled, free)
  | role :: rest =>
    let taken := pick? filled free role
    fill (filled ++ [(role, taken)]) (without taken free) rest

/-- Descending count, then ascending literal. -/
def ranksBefore (a b : PaletteColor) : Bool :=
  b.count < a.count || (a.count == b.count && Text.precedes a.literal b.literal)

def ofPalette (palette : Palette) : RoleAssignment :=
  let (roles, free) := fill [] palette Role.all
  ⟨roles, free.mergeSort ranksBefore⟩

/-- Each color that has a role, with the name of its token. -/
def named (a : RoleAssignment) : OrderedMap Text Text :=
  .ofList <| a.roles.filterMap fun (role, color) => color.map fun c => (c.literal, role.tokenName)

end RoleAssignment

end DesignTokens
