import DesignTokens.Color.Literal
import DesignTokens.Duration
import DesignTokens.Easing
import DesignTokens.Font.Shorthand
import DesignTokens.OrderedMap
import DesignTokens.Stylesheet.Declaration
import DesignTokens.Stylesheet.Property
import DesignTokens.Stylesheet.Value

/-!
Candidates for tokens: the literals of a stylesheet, in tables by category, each with the count of
its occurrences. Colors also keep the properties and the selectors that use them. Declarations are
added one by one, so the tables of a sheet are a fold over its declarations.
-/
namespace DesignTokens

/-- The categories of candidates other than colors. -/
inductive Category where
  | spacing
  | borderWidths
  | radii
  | shadows
  | durations
  | easings
  | fontFamilies
  | fontSizes
  | lineHeights
  | fontWeights
  | letterSpacings
  deriving DecidableEq, Repr

namespace Category

def all : List Category :=
  [spacing, borderWidths, radii, shadows, durations, easings, fontFamilies, fontSizes, lineHeights,
    fontWeights, letterSpacings]

end Category

/-- How often a literal occurs, how often in each property where that is counted, and how long it is
if it is a duration. -/
structure Candidate where
  count : Nat := 0
  properties : OrderedMap Text Nat := .empty
  milliseconds : Option Float := none

structure ColorCandidate where
  count : Nat := 0
  properties : OrderedMap Text Nat := .empty
  selectors : List Text := []

def OrderedMap.increment (m : OrderedMap Text Nat) (key : Text) : OrderedMap Text Nat :=
  m.alter key fun n => n.getD 0 + 1

namespace Candidate

def occur (property : Option Text) (c : Candidate) : Candidate :=
  { c with
    count := c.count + 1
    properties := property.elim c.properties c.properties.increment }

end Candidate

namespace ColorCandidate

def occur (property selector : Text) (c : ColorCandidate) : ColorCandidate :=
  ⟨c.count + 1, c.properties.increment property, c.selectors ++ [selector]⟩

end ColorCandidate

abbrev CandidateTable := OrderedMap Text Candidate

abbrev ColorTable := OrderedMap Text ColorCandidate

structure Candidates where
  colors : ColorTable := .empty
  tables : OrderedMap Category CandidateTable := .empty

namespace Candidates

def empty : Candidates := {}

def table (t : Candidates) (category : Category) : CandidateTable :=
  (t.tables.get? category).getD .empty

/-- One occurrence of a literal in a category; `fresh` is what a new literal starts from. -/
def countFrom (fresh : Candidate) (category : Category) (property : Option Text) (literal : Text)
    (t : Candidates) : Candidates :=
  { t with
    tables := t.tables.alter category fun table =>
      (table.getD .empty).alter literal fun old => (old.getD fresh).occur property }

/-- One occurrence of a literal in a category that does not count properties. -/
def count (category : Category) (t : Candidates) (literal : Text) : Candidates :=
  countFrom {} category none literal t

def countOption (category : Category) (t : Candidates) (literal : Option Text) : Candidates :=
  literal.elim t (count category t)

def countColor (literal property selector : Text) (t : Candidates) : Candidates :=
  { t with colors := t.colors.alter literal fun old => (old.getD {}).occur property selector }

def addColors (d : Declaration) (t : Candidates) : Candidates :=
  (Color.literals d.value).foldl (fun t literal => t.countColor literal d.property d.selector) t

/-- A font family, unless it is a keyword that every property takes. -/
def addFamily (value : Text) (t : Candidates) : Candidates :=
  let family := Value.fontFamily value
  if Value.isWideKeyword family then t else t.count .fontFamilies family

def addShorthand (value : Text) (t : Candidates) : Candidates :=
  let font := FontShorthand.parse value
  let t := t.countOption .fontSizes font.size
  let t := t.countOption .lineHeights font.lineHeight
  let t := t.countOption .fontWeights font.weight
  font.family.elim t fun family => t.addFamily family

/-- The properties whose whole value is a candidate, and the category of each. -/
def wholeValues : List (Text × Category) :=
  [("font-size".toList, .fontSizes), ("line-height".toList, .lineHeights),
    ("font-weight".toList, .fontWeights), ("letter-spacing".toList, .letterSpacings)]

def addTypography (d : Declaration) (t : Candidates) : Candidates :=
  if d.property = "font".toList then t.addShorthand d.value
  else if d.property = "font-family".toList then t.addFamily d.value
  else (wholeValues.lookup d.property).elim t fun category => t.count category d.value

def addSpacing (d : Declaration) (t : Candidates) : Candidates :=
  if Property.isSpacing d.property then
    (Length.literals d.value).foldl
      (fun t literal => t.countFrom {} .spacing (some d.property) literal) t
  else t

/-- The first length of a border or outline is its width. -/
def addBorder (d : Declaration) (t : Candidates) : Candidates :=
  if Property.isBorder d.property then t.countOption .borderWidths (Length.firstLiteral? d.value)
  else t

def addRadius (d : Declaration) (t : Candidates) : Candidates :=
  if d.property = "border-radius".toList then t.count .radii (Value.radius d.value) else t

def addShadow (d : Declaration) (t : Candidates) : Candidates :=
  if d.property = "box-shadow".toList then t.count .shadows (Value.shadow d.value) else t

def countDuration (t : Candidates) (literal : Text) : Candidates :=
  countFrom ⟨0, .empty, some (Duration.milliseconds literal)⟩ .durations none literal t

def addMotion (d : Declaration) (t : Candidates) : Candidates :=
  if Property.isMotion d.property then
    (Easing.literals d.value).foldl (count .easings)
      ((Duration.literals d.value).foldl countDuration t)
  else t

def add (t : Candidates) (d : Declaration) : Candidates :=
  t.addColors d |>.addTypography d |>.addSpacing d |>.addBorder d |>.addRadius d |>.addShadow d
    |>.addMotion d

def collect (declarations : List Declaration) : Candidates := declarations.foldl add empty

end Candidates

end DesignTokens
