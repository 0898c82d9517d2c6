import DesignTokens.Candidates
import DesignTokens.Color.Dark
import DesignTokens.Length.Conversion
import DesignTokens.Text.CodePoint

/-!
The settings of a run: what relative units are measured by, how dark colors are made, which kinds of
token are made and how they are named, and how lengths are converted first. The enabled features are
kept in the order of `Feature.all`, so equal settings are equal records.
-/
namespace DesignTokens

inductive Feature where
  | borders
  | colors
  | motion
  | radius
  | shadows
  | spacing
  | typography
  deriving DecidableEq, Repr

namespace Feature

def all : List Feature := [borders, colors, motion, radius, shadows, spacing, typography]

def name : Feature → String
  | borders => "borders"
  | colors => "colors"
  | motion => "motion"
  | radius => "radius"
  | shadows => "shadows"
  | spacing => "spacing"
  | typography => "typography"

/-- The features among some names; other names are ignored. -/
def ofNames (names : List Text) : List Feature := all.filter fun f => names.contains f.name.toList

end Feature

/-- Names are numbered in the order of a category, or made from a digest of the literal. -/
inductive Naming where
  | sequential
  | stable
  deriving DecidableEq, Repr

/-- A series of tokens with a prefix of its own: the colors without a role, or a category. -/
inductive Series where
  | color
  | category (c : Category)
  deriving DecidableEq, Repr

namespace Series

def all : List Series :=
  [category .spacing, category .shadows, category .durations, category .easings,
    category .fontFamilies, category .fontSizes, category .lineHeights, category .letterSpacings,
    category .fontWeights, category .borderWidths, category .radii, color]

def key : Series → String
  | category .spacing => "space"
  | category .shadows => "shadow"
  | category .durations => "duration"
  | category .easings => "ease"
  | category .fontFamilies => "ff"
  | category .fontSizes => "fs"
  | category .lineHeights => "lh"
  | category .letterSpacings => "ls"
  | category .fontWeights => "fw"
  | category .borderWidths => "border_width"
  | category .radii => "radius"
  | color => "color"

def defaultPrefix : Series → Text
  | category .borderWidths => "border-width".toList
  | color => ['c']
  | series => series.key.toList

end Series

structure Config where
  bases : LengthBases := {}
  algorithm : DarkMethod := .flip
  features : List Feature := Feature.all
  tokenPrefix : Series → CodeText := fun s => .ofText s.defaultPrefix
  naming : Naming := .sequential
  conversions : List Conversion := []
  prefersRootSizes : Bool := false

namespace Config

def default : Config := {}

def has (c : Config) (f : Feature) : Bool := c.features.contains f

def nameStart (c : Config) (s : Series) : Text := (c.tokenPrefix s).readable

end Config

end DesignTokens
