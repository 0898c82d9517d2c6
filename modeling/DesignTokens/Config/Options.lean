import DesignTokens.Config.Basic
import DesignTokens.Json.Value
import DesignTokens.Number.Decimal

/-!
Settings given as a JSON object. `Config.overlay` puts the given options over a configuration; what
is null or not given stays as it is. Numbers may be given as text, features and conversions as text
or as a list. Unknown features, conversions between unknown units and unknown prefixes are ignored.
-/
namespace DesignTokens

inductive OptionError where
  | optionsNotObject (kind : String)
  | prefixesNotObject (kind : String)
  | notIterable (kind : String)
  | withoutLength (kind : String)
  | notNumeric (kind : String)
  | unreadableNumber (t : CodeText)
  | numberTooLarge
  | unknownAlgorithm (name : CodeText)
  deriving DecidableEq, Repr

namespace OptionError

def message : OptionError → Text
  | optionsNotObject kind => s!"'{kind}' object has no attribute 'get'".toList
  | prefixesNotObject kind => s!"'{kind}' object has no attribute 'items'".toList
  | notIterable kind => s!"'{kind}' object is not iterable".toList
  | withoutLength kind => s!"object of type '{kind}' has no len()".toList
  | notNumeric kind =>
    s!"float() argument must be a string or a real number, not '{kind}'".toList
  | unreadableNumber t => "could not convert string to float: ".toList ++ t.quoted
  | numberTooLarge => NumberFault.integerTooLarge.message.toList
  | unknownAlgorithm name => name.quoted ++ " is not a valid DarkAlgorithm".toList

/-- Is the option given as a text that it cannot be read from? Otherwise its value is of a kind that
the option does not take. -/
def isUnreadable : OptionError → Bool
  | unreadableNumber _ | unknownAlgorithm _ => true
  | _ => false

end OptionError

namespace Json

/-- A member of an object that is given and not null. -/
def given? (members : List (CodeText × Json)) (name : String) : Option Json :=
  match members.lookup (.ofText name.toList) with
  | none | some null => none
  | some value => some value

/-- A member that may go by another name. The first name counts if it is there, even as null. -/
def givenAs? (members : List (CodeText × Json)) (name other : String) : Option Json :=
  if (members.lookup (.ofText name.toList)).isSome then given? members name
  else given? members other

/-- A number, a truth value as 0 or 1, or text that reads as a number. -/
def toNumber : Json → Except OptionError Float
  | int n =>
    let x := (Decimal.mk (n < 0) n.natAbs 0).toFloat
    if Number.isFinite x then .ok x else .error .numberTooLarge
  | float x => .ok x
  | bool b => .ok (if b then 1.0 else 0.0)
  | string t => (Decimal.float? t.readable).elim (.error (.unreadableNumber t)) .ok
  | value => .error (.notNumeric value.kindName)

/-- The items of a list, or the names of an object. -/
def toItems : Json → Except OptionError (List Json)
  | array items => .ok items
  | object members => .ok (members.map fun (name, _) => string name)
  | value => .error (.notIterable value.kindName)

end Json

namespace Feature

def nameOf (item : Json) : Text := Text.lower (Text.trim item.display.readable)

/-- Features as a list of names, as text with commas, or `all`; no value stands for all. -/
def parse : Json → Except OptionError (List Feature)
  | .null => .ok all
  | .string t =>
    if Text.lower (Text.trim t.readable) = "all".toList then .ok all
    else .ok (ofNames ((Text.splitOn ',' t.readable).map fun item => nameOf (.text item)))
  | value => value.toItems.map fun items => ofNames (items.map nameOf)

end Feature

namespace Conversion

/-- A conversion between two different units that are known. -/
def ofNames? (source target : Text) : Option Conversion := do
  let source ← LengthUnit.ofName? (Text.lower (Text.trim source))
  let target ← LengthUnit.ofName? (Text.lower (Text.trim target))
  if source = target then none else some ⟨source, target⟩

/-- The form `source>target`. -/
def ofText? (t : Text) : Option Conversion :=
  match Text.cut '>' t with
  | (source, some target) => ofNames? source target
  | (_, none) => none

def text (c : Conversion) : Text := c.source.name ++ '>' :: c.target.name

def ofList? : List Text → Option Conversion
  | [source, target] => ofNames? source target
  | _ => none

def ofItem (item : Json) : Except OptionError (Option Conversion) :=
  match item with
  | .string t => .ok (ofText? t.readable)
  | .array items => .ok (ofList? (items.map (·.display.readable)))
  | .object members => .ok (ofList? (members.map (·.1.readable)))
  | value => .error (.withoutLength value.kindName)

/-- A chain of conversions as text with commas or as a list. -/
def parse (value : Json) : Except OptionError (List Conversion) :=
  if !value.isSet then .ok []
  else
    match value with
    | .string t => .ok ((Text.splitOn ',' t.readable).filterMap ofText?)
    | value => do return (← (← value.toItems).mapM ofItem).filterMap id

end Conversion

namespace DarkMethod

def parse (value : Json) : Except OptionError DarkMethod :=
  let name := value.display.lower
  (ofName? name.readable).elim (.error (.unknownAlgorithm name)) .ok

end DarkMethod

namespace LengthBases

def overlay (members : List (CodeText × Json)) (b : LengthBases) :
    Except OptionError LengthBases := do
  let base (name : String) (old : Float) := (Json.given? members name).elim (.ok old) Json.toNumber
  let root ← base "root_px" b.root
  let context ← base "context_px" b.context
  let viewportWidth ← base "viewport_width_px" b.viewportWidth
  let viewportHeight ← base "viewport_height_px" b.viewportHeight
  let percentBase ← base "percent_base_px" b.percentBase
  let character ← base "ch_px" b.character
  return ⟨root, context, viewportWidth, viewportHeight, percentBase, character⟩

end LengthBases

namespace Series

/-- Each prefix that is given and set. Any value can be a prefix; it counts as its text. -/
def overlay (value : Json) (old : Series → CodeText) : Except OptionError (Series → CodeText) :=
  if !value.isSet then .ok old
  else
    match value with
    | .object members => .ok fun series =>
      match members.lookup (.ofText series.key.toList) with
      | some value => if value.isSet then value.display else old series
      | none => old series
    | value => .error (.prefixesNotObject value.kindName)

end Series

namespace Config

def overlayMembers (members : List (CodeText × Json)) (c : Config) : Except OptionError Config := do
  let given := Json.given? members
  let bases ← c.bases.overlay members
  let algorithm ←
    (Json.givenAs? members "algorithm" "dark_algorithm").elim (.ok c.algorithm) DarkMethod.parse
  let features ← (given "features").elim (.ok c.features) Feature.parse
  let tokenPrefix ← Series.overlay ((given "prefixes").getD .null) c.tokenPrefix
  let naming :=
    (given "stable_names").elim c.naming fun v => if v.isSet then .stable else .sequential
  let conversions ←
    (Json.givenAs? members "convert" "conversions").elim (.ok c.conversions) Conversion.parse
  let prefersRootSizes := (given "prefer_rem").elim c.prefersRootSizes Json.isSet
  return ⟨bases, algorithm, features, tokenPrefix, naming, conversions, prefersRootSizes⟩

/-- The configuration with options put over it. -/
def overlay (options : Json) (c : Config) : Except OptionError Config :=
  match options with
  | .object members => overlayMembers members c
  | value => .error (.optionsNotObject value.kindName)

end Config

end DesignTokens
