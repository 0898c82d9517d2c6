import DesignTokens.Config.Options
import DesignTokens.Json.Reader

/-!
What a command line can ask for, and the flags that ask for it. A flag stands alone or takes a
value; most values are options of the configuration, which they give by the names that a file of
options uses. The value `--` after an equals sign stands for an empty list of values.
-/
namespace DesignTokens

/-- What a command line asks for. Of options with one name the first in the list counts. -/
structure Invocation where
  input : Text := []
  tokensPath : Option Text := some "tokens.css".toList
  substitutedPath : Option Text := none
  manifestPath : Option Text := none
  convertedPath : Option Text := none
  configPath : Option Text := none
  options : List (Text × Json) := []
  prefixes : List (Text × Json) := []
  maxBytes : Option Int := some 5242880
  quiet : Bool := false

namespace Invocation

def withOption (name : String) (value : Json) (i : Invocation) : Invocation :=
  { i with options := (name.toList, value) :: i.options }

def withPrefix (s : Series) (value : Json) (i : Invocation) : Invocation :=
  { i with prefixes := (s.key.toList, value) :: i.prefixes }

/-- The options that are given, as a file of options would give them. -/
def settings (i : Invocation) : Json :=
  .record (("prefixes".toList, .record i.prefixes) :: i.options)

end Invocation

/-- What a flag does. One with a value sets it, if it can be read, or sets the empty list. -/
inductive FlagEffect where
  | help
  | switch (set : Invocation → Invocation)
  | value (set? : Text → Invocation → Option Invocation) (setEmpty : Invocation → Invocation)

structure Flag where
  name : String
  effect : FlagEffect
  purpose : String

namespace Flag

def given (t : Text) : Option Text := if t.isEmpty then none else some t

def path (name : String) (set : Option Text → Invocation → Invocation) (purpose : String) : Flag :=
  ⟨name, .value (fun t i => some (set (given t) i)) (set none), purpose⟩

/-- An option whose value is read from the text of the flag. -/
def readOption (read? : Text → Option Json) (name option purpose : String) : Flag where
  name := name
  effect :=
    .value (fun t i => (read? t).map fun value => i.withOption option value)
      (·.withOption option (.array []))
  purpose := purpose

def textOption : String → String → String → Flag := readOption fun t => some (.text t)

def numberOption : String → String → String → Flag :=
  readOption fun t => (Decimal.float? t).map .float

def algorithmOption : String → String → String → Flag :=
  readOption fun t => (DarkMethod.ofName? t).map fun _ => .text t

def switchOption (name option purpose : String) : Flag :=
  ⟨name, .switch (·.withOption option (.bool true)), purpose⟩

def seriesWords : Series → String
  | .category .spacing => "space"
  | .category .shadows => "shadow"
  | .category .durations => "duration"
  | .category .easings => "ease"
  | .category .fontFamilies => "font-family"
  | .category .fontSizes => "font-size"
  | .category .lineHeights => "line-height"
  | .category .letterSpacings => "letter-spacing"
  | .category .fontWeights => "font-weight"
  | .category .borderWidths => "border-width"
  | .category .radii => "radius"
  | .color => "color"

def seriesPrefix (s : Series) : Flag where
  name := "--prefix-" ++ seriesWords s
  effect :=
    .value (fun t i => some (i.withPrefix s (.text t))) (·.withPrefix s (.array []))
  purpose := "prefix of the token names of this series"

def all : List Flag := [
    ⟨"--help", .help, "show this list"⟩,
    ⟨"--out",
      .value (fun t i => some { i with tokensPath := some t }) ({ · with tokensPath := none }),
      "where the tokens are written"⟩,
    path "--rewrite" (fun p i => { i with substitutedPath := p })
      "where the stylesheet with references is written",
    path "--manifest" (fun p i => { i with manifestPath := p }) "where the manifest is written",
    algorithmOption "--algorithm" "algorithm" "how dark colors are made: flip, invert or tone",
    textOption "--features" "features" "kinds of token to make, with commas between",
    textOption "--convert" "convert" "conversions of lengths to make first, such as px>rem",
    path "--convert-out" (fun p i => { i with convertedPath := p })
      "where the converted stylesheet is written",
    numberOption "--root-size" "root_px" "font size of the root in px",
    numberOption "--context-size" "context_px" "font size that em is measured by, in px",
    numberOption "--viewport-width" "viewport_width_px" "width of the viewport in px",
    numberOption "--viewport-height" "viewport_height_px" "height of the viewport in px",
    numberOption "--percent-base" "percent_base_px" "length that percentages are of, in px",
    numberOption "--ch-width" "ch_px" "width of a character in px",
    switchOption "--stable-names" "stable_names" "name tokens by a digest of the literal",
    switchOption "--prefer-rem" "prefer_rem" "write spacing that is a multiple of 4px in rem"] ++
  Series.all.map seriesPrefix ++ [
    path "--config" (fun p i => { i with configPath := p }) "file of options",
    ⟨"--max-bytes",
      .value (fun t i => (Decimal.whole? t).map fun n => { i with maxBytes := some n })
        ({ · with maxBytes := none }),
      "largest size of a stylesheet"⟩,
    ⟨"--quiet", .switch fun i => { i with quiet := true }, "print no summary"⟩]

def startingWith (t : Text) : List Flag := all.filter fun f => t.isPrefixOf f.name.toList

def find? (t : Text) : Option Flag := all.find? fun f => f.name.toList = t

end Flag

end DesignTokens
