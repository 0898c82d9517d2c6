import DesignTokens.Color.Dark
import DesignTokens.Color.Literal
import DesignTokens.Token.Tables

/-!
The stylesheet that declares the tokens: a block for the root and a block for the dark theme, each
with a section per category. Colors are written in their normal form, in the dark block by the
chosen algorithm, durations in seconds, and spacing in root font sizes if that is preferred. Other
literals are declared as they are.
-/
namespace DesignTokens

/-- A line of a block: the title of a section, with an empty line before it unless it opens the
block, or the declaration of a token. -/
inductive DocumentLine where
  | title (opening : Bool) (t : Text)
  | declaration (name value : Text)
  deriving DecidableEq, Repr

namespace DocumentLine

def text : DocumentLine → Text
  | title opening t => (if opening then [] else ['\n']) ++ "  /* ".toList ++ t ++ " */".toList
  | declaration name value => "  ".toList ++ name ++ ": ".toList ++ value ++ [';']

end DocumentLine

structure TokenDocument where
  root : List DocumentLine
  dark : List DocumentLine
  deriving DecidableEq, Repr

namespace TokenDocument

/-- A token for each literal, with the value that a literal is given. -/
def declarations (render : Text → Text) (m : TokenMap) : List DocumentLine :=
  m.entries.map fun (literal, name) => .declaration name (render literal)

/-- A title and the tokens under it; nothing where there are no tokens. -/
def sectionOf (title : String) (render : Text → Text) (m : TokenMap) : List DocumentLine :=
  if m.isEmpty then [] else .title false title.toList :: declarations render m

/-- The declarations of a color in both blocks. -/
def colorLines (algorithm : DarkMethod) (entry : Text × Text) :
    Except NumberFault (DocumentLine × DocumentLine) := do
  let (literal, name) := entry
  let color ← Rgba.ofLiteral literal
  let dark ← color.dark algorithm
  return (.declaration name color.text, .declaration name dark.text)

def colorSections (config : Config) (tokens : TokenTables) :
    Except NumberFault (List DocumentLine × List DocumentLine) := do
  if config.has .colors && !tokens.colors.isEmpty then
    let lines ← tokens.colors.entries.mapM (colorLines config.algorithm)
    let title := DocumentLine.title true "Colors".toList
    return (title :: lines.map Prod.fst, title :: lines.map Prod.snd)
  else return ([], [])

def typography : List (Category × String) :=
  [(.fontFamilies, "Typography: font families"), (.fontSizes, "Typography: font sizes"),
    (.lineHeights, "Typography: line heights"), (.fontWeights, "Typography: font weights"),
    (.letterSpacings, "Typography: letter spacing")]

def typographyRoot (tokens : TokenTables) : List DocumentLine :=
  typography.flatMap fun (c, title) => sectionOf title id (tokens.table c)

/-- In the dark block all typography is one section. -/
def typographyDark (tokens : TokenTables) : List DocumentLine :=
  let lines := typography.flatMap fun (c, _) => declarations id (tokens.table c)
  if lines.isEmpty then []
  else .title false "Typography (same as light)".toList :: lines

def spacingValues (config : Config) (tokens : TokenTables) :
    Except NumberFault (List DocumentLine) :=
  if config.prefersRootSizes then do
    let lines ← (tokens.table .spacing).entries.mapM fun (literal, name) => do
      return DocumentLine.declaration name (← Length.inRootSizes config.bases literal)
    return if lines.isEmpty then [] else .title false "Spacing (by frequency)".toList :: lines
  else return sectionOf "Spacing (by frequency)" id (tokens.table .spacing)

def motionSections (tokens : TokenTables) : List DocumentLine :=
  sectionOf "Durations" Duration.inSeconds (tokens.table .durations) ++
    sectionOf "Easing" id (tokens.table .easings)

def linesIf (config : Config) (f : Feature) (lines : List DocumentLine) : List DocumentLine :=
  if config.has f then lines else []

def ofTokens (config : Config) (tokens : TokenTables) : Except NumberFault TokenDocument := do
  let (colors, darkColors) ← colorSections config tokens
  let spacing ← if config.has .spacing then spacingValues config tokens else .ok []
  let motion := linesIf config .motion (motionSections tokens)
  let root :=
    colors ++ linesIf config .typography (typographyRoot tokens) ++ spacing ++
      linesIf config .borders (sectionOf "Border widths" id (tokens.table .borderWidths)) ++
      linesIf config .radius (sectionOf "Radii" id (tokens.table .radii)) ++
      linesIf config .shadows (sectionOf "Shadows" id (tokens.table .shadows)) ++ motion
  let dark :=
    darkColors ++ linesIf config .typography (typographyDark tokens) ++
      linesIf config .shadows
        (sectionOf "Shadows (same as light; adjust if needed)" id (tokens.table .shadows)) ++
      motion
  return ⟨root, dark⟩

def rootSelector : Text := ":root".toList

def darkSelector : Text := ":root[data-theme=\"dark\"]".toList

def blockText (selector : Text) (lines : List DocumentLine) : Text :=
  selector ++ '\x7b' :: '\n' :: Text.join ['\n'] (lines.map DocumentLine.text) ++
    ['\n', '\x7d', '\n']

def text (d : TokenDocument) : Text :=
  blockText rootSelector d.root ++ '\n' :: blockText darkSelector d.dark

end TokenDocument

end DesignTokens
