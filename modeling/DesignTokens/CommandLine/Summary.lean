import DesignTokens.Token.Tables

/-!
The summary that is shown at the end of a run: how many tokens each category has, and the roles of
the colors. Categories without tokens are left out.
-/
namespace DesignTokens.TokenTables

def labelled (t : TokenTables) : List (String × TokenMap) :=
  [("Semantic colors", t.semantic), ("Numbered colors", t.numbered),
    ("Font families", t.table .fontFamilies), ("Font sizes", t.table .fontSizes),
    ("Line heights", t.table .lineHeights), ("Font weights", t.table .fontWeights),
    ("Letter spacing", t.table .letterSpacings), ("Spacing", t.table .spacing),
    ("Border widths", t.table .borderWidths), ("Radii", t.table .radii),
    ("Shadows", t.table .shadows), ("Durations", t.table .durations),
    ("Easing", t.table .easings)]

def countLines (t : TokenTables) : List Text :=
  (t.labelled.filter fun entry => !entry.2.isEmpty).map fun (label, tokens) =>
    s!"  {label}: {tokens.size}".toList

def roleLines (t : TokenTables) : List Text :=
  if t.semantic.isEmpty then []
  else
    "\nColor roles:".toList ::
      t.semantic.entries.map fun (literal, name) =>
        "  ".toList ++ name ++ ": ".toList ++ literal

def summary (t : TokenTables) : List Text :=
  "\n--- Token Summary ---".toList :: t.countLines ++ t.roleLines

end DesignTokens.TokenTables
