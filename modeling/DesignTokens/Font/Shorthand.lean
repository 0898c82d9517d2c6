import DesignTokens.Length.Literal

/-!
The parts of a `font` value: size, line height, weight and family, each found by a rule of its own.
The size is the first length that stands at the start or after a blank, and a line height follows it
after `/`. The weight is the first weight that is a word of its own. The family is all that follows
the first length and its line height; here a length may start inside a word.
-/
namespace DesignTokens

structure FontShorthand where
  size : Option Text
  lineHeight : Option Text
  weight : Option Text
  family : Option Text
  deriving DecidableEq, Repr

namespace FontShorthand

def sizeLength? (t : Text) : Option Nat :=
  (Length.scan? [.px, .rem, .em, .percent] .anyCase t).map fun (_, _, rest) =>
    t.length - rest.length

def isLineHeightPart (c : Char) : Bool := !Text.isBlank c && c != '/' && c != ';'

/-- A `/` and a line height at the start of a text, blanks aside: the line height and what follows.
-/
def lineHeight? (t : Text) : Option (Text × Text) :=
  match Text.trimLeft t with
  | '/' :: rest =>
    let t := Text.trimLeft rest
    match t.takeWhile isLineHeightPart with
    | [] => none
    | height => some (height, t.dropWhile isLineHeightPart)
  | _ => none

/-- The first text that starts with a size and has a blank or nothing before it. -/
def sizeSuffix? (before : Option Char) : Text → Option (Text × Text)
  | [] => none
  | c :: rest =>
    match before.all Text.isBlank, sizeLength? (c :: rest) with
    | true, some n => some ((c :: rest).splitAt n)
    | _, _ => sizeSuffix? (some c) rest

/-- What follows the first size anywhere in a text. -/
def afterSize? : Text → Option Text
  | [] => none
  | c :: rest =>
    match sizeLength? (c :: rest) with
    | some n => some ((c :: rest).drop n)
    | none => afterSize? rest

def family? (t : Text) : Option Text := do
  let rest ← afterSize? t
  let tail :=
    match lineHeight? rest with
    | some (_, tail) => tail
    | none => rest
  let family := Text.trim tail
  if family.isEmpty then none else some family

def weights : List Text :=
  ["100".toList, "200".toList, "300".toList, "400".toList, "500".toList, "600".toList, "700".toList,
    "800".toList, "900".toList, "normal".toList, "bold".toList]

def weightToken : Text.Recognizer := fun before t => do
  let weight ← weights.find? fun w => Text.isPrefixNoCase w t
  let n := weight.length
  if before.any Text.isWord || Text.nextIs Text.isWord (t.drop n) then none else some n

def parse (value : Text) : FontShorthand :=
  let size := sizeSuffix? none value
  ⟨size.map Prod.fst, size.bind fun (_, rest) => (lineHeight? rest).map Prod.fst,
    Text.firstToken? weightToken value, family? value⟩

end FontShorthand

end DesignTokens
