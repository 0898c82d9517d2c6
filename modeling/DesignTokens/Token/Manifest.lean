import DesignTokens.Config.Options
import DesignTokens.Token.Tables

/-!
The manifest of a run: for each category the literals by token name, and the settings that the
tokens depend on. Typography and motion are left out if they are not enabled.
-/
namespace DesignTokens

structure Manifest where
  semantic : OrderedMap Text Text
  numbered : OrderedMap Text Text
  tables : OrderedMap Category (OrderedMap Text Text)
  input : Option Text
  algorithm : DarkMethod
  features : List Feature
  naming : Naming
  conversions : List Conversion
  deriving DecidableEq

namespace Manifest

def isListed (config : Config) (c : Category) : Bool :=
  match c.feature with
  | .typography => config.has .typography
  | .motion => config.has .motion
  | _ => true

def ofTokens (tokens : TokenTables) (config : Config) (input : Option Text) : Manifest where
  semantic := tokens.semantic.inverse
  numbered := tokens.numbered.inverse
  tables := .ofList <|
    (Category.all.filter (isListed config)).map fun c => (c, (tokens.table c).inverse)
  input := input
  algorithm := config.algorithm
  features := config.features
  naming := config.naming
  conversions := config.conversions

def table (m : Manifest) (c : Category) : OrderedMap Text Text := (m.tables.get? c).getD .empty

def key : Category → String
  | .spacing => "spacing"
  | .borderWidths => "borderWidths"
  | .radii => "radii"
  | .shadows => "shadows"
  | .durations => "durations"
  | .easings => "easing"
  | .fontFamilies => "fontFamilies"
  | .fontSizes => "fontSizes"
  | .lineHeights => "lineHeights"
  | .fontWeights => "fontWeights"
  | .letterSpacings => "letterSpacing"

def record (members : List (String × Json)) : Json :=
  .record (members.map fun (name, value) => (name.toList, value))

def mapJson (m : OrderedMap Text Text) : Json :=
  .record (m.entries.map fun (name, literal) => (name, .text literal))

def group (m : Manifest) (categories : List Category) : Json :=
  record ((categories.filter fun c => (m.tables.get? c).isSome).map fun c =>
    (key c, mapJson (m.table c)))

def settings (m : Manifest) : Json :=
  record [("input", m.input.elim .null .text), ("algorithm", .text m.algorithm.name.toList),
    ("features", .array (m.features.map fun f => .text f.name.toList)),
    ("stableNames", .bool (m.naming = .stable)),
    ("conversions", .array (m.conversions.map fun c => .text c.text))]

def toJson (m : Manifest) : Json :=
  record [("colors", record [("semantic", mapJson m.semantic), ("numbered", mapJson m.numbered)]),
    ("typography",
      m.group [.fontFamilies, .fontSizes, .lineHeights, .fontWeights, .letterSpacings]),
    ("spacing", mapJson (m.table .spacing)), ("borderWidths", mapJson (m.table .borderWidths)),
    ("radii", mapJson (m.table .radii)), ("shadows", mapJson (m.table .shadows)),
    ("motion", m.group [.durations, .easings]), ("meta", m.settings)]

end Manifest

end DesignTokens
