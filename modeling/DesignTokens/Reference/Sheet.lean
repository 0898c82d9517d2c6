import DesignTokens.Reference.Font

/-!
A stylesheet with references in the place of its literals. Each enabled feature with tokens is one
pass over the declarations; the pass for colors goes over the whole text. Shadows and radii, which
are compared as whole values, come before the colors, so that a color inside of them does not spoil
them.
-/
namespace DesignTokens.TokenTables

def mapFamily (family : Text → Bool) (f : Text → Text) (t : Text) : Text :=
  Sheet.mapValues (fun _ property value => if family property then f value else value) t

def substituteShadows (tokens : TokenTables) (t : Text) : Text :=
  mapFamily (· = "box-shadow".toList) ((tokens.table .shadows).replaceWhole Value.shadow) t

def substituteRadii (tokens : TokenTables) (t : Text) : Text :=
  mapFamily (· = "border-radius".toList) ((tokens.table .radii).replaceWhole Value.radius) t

def typographyValue (weights : List (Text × Template)) (tokens : TokenTables)
    (property value : Text) : Text :=
  if property = "font-family".toList then
    (tokens.table .fontFamilies).replaceWhole Value.fontFamily value
  else if property = "font".toList then FontShorthand.substituteWith weights tokens value
  else
    match Candidates.wholeValues.lookup property with
    | some category => (tokens.table category).substituteLone .anyCase value
    | none => value

/-- The pass for typography. Templates that cannot be read matter only where a `font` value is. -/
def substituteTypography (tokens : TokenTables) (t : Text) : Except TemplateError Text :=
  let substituteWith weights :=
    Sheet.mapValues (fun _ property value => typographyValue weights tokens property value) t
  match FontShorthand.weightTemplates tokens with
  | .ok weights => .ok (substituteWith weights)
  | .error e =>
    if (Declaration.parse t).any (·.property = "font".toList) then .error e
    else .ok (substituteWith [])

def substituteSpacing (tokens : TokenTables) (t : Text) : Text :=
  mapFamily Property.isSpacing ((tokens.table .spacing).substituteLone .exact) t

def substituteBorders (tokens : TokenTables) (t : Text) : Text :=
  mapFamily Property.isBorder ((tokens.table .borderWidths).substituteLone .exact) t

def substituteMotion (tokens : TokenTables) (t : Text) : Text :=
  mapFamily Property.isMotion (fun value =>
    (tokens.table .easings).substituteLone .exact
      ((tokens.table .durations).substituteLone .exact value)) t

def passIf (condition : Bool) (pass : Text → Text) (t : Text) : Text :=
  if condition then pass t else t

/-- A stylesheet with the literals of some features as references. -/
def substitute (tokens : TokenTables) (features : List Feature) (t : Text) :
    Except TemplateError Text := do
  let has (f : Feature) (categories : List Category) : Bool :=
    features.contains f && categories.any fun c => !(tokens.table c).isEmpty
  let t := passIf (has .shadows [.shadows]) tokens.substituteShadows t
  let t := passIf (has .radius [.radii]) tokens.substituteRadii t
  let t := passIf (features.contains .colors && !tokens.colors.isEmpty)
    tokens.colors.substituteAll t
  let t ← if features.contains .typography then tokens.substituteTypography t else .ok t
  let t := passIf (has .spacing [.spacing]) tokens.substituteSpacing t
  let t := passIf (has .borders [.borderWidths]) tokens.substituteBorders t
  return passIf (has .motion [.durations, .easings]) tokens.substituteMotion t

end DesignTokens.TokenTables
