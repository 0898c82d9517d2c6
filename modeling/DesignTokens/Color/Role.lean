import DesignTokens.Text.Basic

/-!
The roles that colors play in a theme, in the order in which they are filled.
-/
namespace DesignTokens

inductive Role where
  | foreground
  | background
  | primary
  | secondary
  | accent
  | border
  | surface1
  | surface2
  | outline
  | muted
  | disabled
  deriving DecidableEq, Repr

namespace Role

def all : List Role :=
  [foreground, background, primary, secondary, accent, border, surface1, surface2, outline, muted,
    disabled]

def name : Role → String
  | foreground => "foreground"
  | background => "background"
  | primary => "primary"
  | secondary => "secondary"
  | accent => "accent"
  | border => "border"
  | surface1 => "surface-1"
  | surface2 => "surface-2"
  | outline => "outline"
  | muted => "muted"
  | disabled => "disabled"

def tokenName : Role → Text
  | foreground => "--color-fg".toList
  | background => "--color-bg".toList
  | role => "--color-".toList ++ role.name.toList

end Role

end DesignTokens
