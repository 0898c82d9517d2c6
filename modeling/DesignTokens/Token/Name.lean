import DesignTokens.Config.Basic
import DesignTokens.Text.Digest

/-!
Names of tokens. A `NameScheme` gives a literal its base name, by its place or by its digest. Names
given out one after another are kept apart: a base name that is taken gets the first of the endings
`-2`, `-3`, … that makes it new.
-/
namespace DesignTokens

structure NameScheme where
  start : Text
  mode : Naming := .sequential
  width : Nat := 0
  separator : Text := ['-']
  deriving DecidableEq, Repr

/-- Zeros between sign and digits up to a width. -/
def padNumber (width : Nat) (n : Int) : Text :=
  let sign : Text := if n < 0 then ['-'] else []
  let digits := Number.digits n.natAbs
  sign ++ List.replicate (width - (sign.length + digits.length)) '0' ++ digits

namespace NameScheme

/-- The name of a literal at an index, which is counted from 0 and written from 1. -/
def base (s : NameScheme) (literal : Text) (index : Int) : Text :=
  match s.mode with
  | .stable => "--".toList ++ s.start ++ '-' :: Text.shortDigest literal
  | .sequential => "--".toList ++ s.start ++ s.separator ++ padNumber s.width (index + 1)

end NameScheme

namespace TokenName

def suffixed (base : Text) (n : Nat) : Text := base ++ '-' :: Number.digits n

/-- The first ending from `n` on that gives a new name. One more try than there are names is
enough. -/
def firstFree (base : Text) (used : List Text) : Nat → Nat → Text
  | 0, n => suffixed base n
  | tries + 1, n =>
    if suffixed base n ∈ used then firstFree base used tries (n + 1) else suffixed base n

/-- A name that is not used: the base, if it is free. -/
def fresh (base : Text) (used : List Text) : Text :=
  if base ∈ used then firstFree base used used.length 2 else base

/-- Names for literals with their indices, one after another. -/
def assign (s : NameScheme) (used : List Text) : List (Text × Int) → List Text
  | [] => []
  | (literal, index) :: rest =>
    let name := fresh (s.base literal index) used
    name :: assign s (used ++ [name]) rest

end TokenName

/-- Names of literals, by literal, in the order in which the tokens are declared. -/
abbrev TokenMap := OrderedMap Text Text

def TokenMap.ofLiterals (s : NameScheme) (literals : List Text) : TokenMap :=
  .ofList <| literals.zip <|
    TokenName.assign s [] (literals.zipIdx.map fun (literal, i) => (literal, (i : Int)))

end DesignTokens
