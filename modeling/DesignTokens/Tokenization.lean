import DesignTokens.Length.FontSize
import DesignTokens.Reference.Sheet
import DesignTokens.Token.Document
import DesignTokens.Token.Manifest

/-!
A stylesheet turned into tokens. Lengths are converted first; from what the converted sheet declares
come the candidates, the roles of its colors, the tokens, and the document that declares them.
-/
namespace DesignTokens

structure Tokenization where
  config : Config
  converted : Text
  candidates : Candidates
  roles : RoleAssignment
  tokens : TokenTables
  document : TokenDocument

namespace Tokenization

def ofText (config : Config) (t : Text) : Except NumberFault Tokenization := do
  let converted := Conversion.convertSheet config.bases config.conversions t
  let candidates := Candidates.collect (Declaration.parse converted)
  let palette ← Palette.ofTable candidates.colors
  let roles := RoleAssignment.ofPalette palette
  let tokens := TokenTables.ofCandidates candidates roles config
  let document ← TokenDocument.ofTokens config tokens
  return ⟨config, converted, candidates, roles, tokens, document⟩

/-- The text of the document where the halves in prefixes are characters from `base` on. -/
def spelledDocument (r : Tokenization) (base : Nat) : Text :=
  let config :=
    { r.config with tokenPrefix := fun s => .ofText ((r.config.tokenPrefix s).spelled base) }
  let tokens := TokenTables.ofCandidates r.candidates r.roles config
  ((TokenDocument.ofTokens config tokens).toOption.map TokenDocument.text).getD []

/-- The text of the document, which can be written if the prefixes in use have no halves. -/
def documentText (r : Tokenization) : Except LoneHalves Text :=
  if Series.all.any fun s => (r.config.tokenPrefix s).any CodePoint.isHalf then
    let text := CodeText.ofSpellings (r.spelledDocument CodeText.firstBase)
      (r.spelledDocument CodeText.secondBase)
    text.text?
  else .ok r.document.text

/-- The document of the tokens, then the converted stylesheet with references to them. -/
def substituted (r : Tokenization) : Except TemplateError Text := do
  let sheet ← r.tokens.substitute r.config.features r.converted
  return "/* Generated tokens */\n".toList ++ r.document.text ++
    "\n/* Original CSS with replacements */\n".toList ++ sheet

def manifest (r : Tokenization) (input : Option Text) : Manifest :=
  .ofTokens r.tokens r.config input

end Tokenization

end DesignTokens
