import DesignTokens.Number.Decimal
import DesignTokens.Number.FixedPoint
import DesignTokens.Text.Identifier
import DesignTokens.Text.Quoted

/-!
Replacement templates. A template is text in which a backslash starts an escape: a control
character, a character by its octal number, or the matched text. There are no groups other than the
whole match, so any other group is refused.
-/
namespace DesignTokens

inductive TemplateFault where
  | missingBracket
  | missingName
  | unterminatedName
  | badName (name : Text)
  | unknownName (name : Text)
  | noSuchGroup (index : Nat)
  | octalTooLarge (digits : Text)
  | badEscape (c : Char)
  | endInEscape
  deriving DecidableEq, Repr

namespace TemplateFault

def message : TemplateFault → Text
  | missingBracket => "missing <".toList
  | missingName => "missing group name".toList
  | unterminatedName => "missing >, unterminated name".toList
  | badName name => "bad character in group name ".toList ++ Text.quoted name
  | unknownName name => "unknown group name ".toList ++ Text.quoted name
  | noSuchGroup index => "invalid group reference ".toList ++ Number.digits index
  | octalTooLarge digits =>
    "octal escape value \\".toList ++ digits ++ " outside of range 0-0o377".toList
  | badEscape c => ['b', 'a', 'd', ' ', 'e', 's', 'c', 'a', 'p', 'e', ' ', '\\', c]
  | endInEscape => "bad escape (end of pattern)".toList

def isPlaced : TemplateFault → Bool
  | unknownName _ => false
  | _ => true

end TemplateFault

/-- A fault at a position of a template. -/
structure TemplateError where
  template : Text
  fault : TemplateFault
  position : Nat
  deriving DecidableEq, Repr

namespace TemplateError

/-- The line and column of the fault, told if the template has more than one line. -/
def lineText (e : TemplateError) : Text :=
  if e.template.contains '\n' then
    let before := e.template.take e.position
    let line := before.count '\n' + 1
    let column := (before.reverse.takeWhile (· != '\n')).length + 1
    s!" (line {line}, column {column})".toList
  else []

def message (e : TemplateError) : Text :=
  if e.fault.isPlaced then
    e.fault.message ++ s!" at position {e.position}".toList ++ e.lineText
  else e.fault.message

end TemplateError

namespace Template

inductive Part where
  | text (t : Text)
  | matched
  deriving DecidableEq, Repr

/-- A character, or a backslash and the character after it. -/
inductive Sign where
  | plain (c : Char)
  | escape (c : Char)
  deriving DecidableEq, Repr

namespace Sign

def text : Sign → Text
  | plain c => [c]
  | escape c => ['\\', c]

def isDigit (base : Nat) : Sign → Bool
  | plain c => c.toNat < 128 && (Decimal.digitInBase? base c).isSome
  | escape _ => false

end Sign

/-- The signs of a text; none if it ends in a lone backslash. -/
def signs? : Text → Option (List Sign)
  | [] => some []
  | ['\\'] => none
  | '\\' :: c :: rest => (signs? rest).map (.escape c :: ·)
  | c :: rest => (signs? rest).map (.plain c :: ·)

def controls : List (Char × Char) :=
  [('a', '\x07'), ('b', '\x08'), ('f', '\x0C'), ('n', '\n'), ('r', '\r'), ('t', '\t'),
    ('v', '\x0B'), ('\\', '\\')]

/-- A fault and its place, from the backslash of an escape or from the start of the template. -/
abbrev Placed := TemplateFault × Nat

def groupOf (name : Text) : Except Placed Part :=
  if Text.isIdentifier name then .error (.unknownName name, 3)
  else
    match Decimal.whole? name with
    | some (.ofNat 0) => .ok .matched
    | some (.ofNat n) => .error (.noSuchGroup n, 3)
    | _ => .error (.badName name, 3)

/-- A group name in angle brackets, and how many signs it takes. -/
def readName : List Sign → Except Placed (Part × Nat)
  | .plain '<' :: rest =>
    let name := rest.takeWhile (· != .plain '>')
    if name.isEmpty then .error (.missingName, 3)
    else if name.length = rest.length then .error (.unterminatedName, 3)
    else (groupOf (name.flatMap Sign.text)).map fun part => (part, name.length + 2)
  | _ => .error (.missingBracket, 2)

def octalPart (digits : Text) : Part :=
  .text [Char.ofNat (((Decimal.int? 8 digits).getD 0).toNat)]

/-- Digits after the backslash: three octal digits are a character, other digits a group. -/
def readNumber (c : Char) (rest : List Sign) : Except Placed (Part × Nat) :=
  let tail := (rest.take 2).takeWhile (Sign.isDigit 10)
  let digits := c :: tail.flatMap Sign.text
  if tail.length = 2 ∧ (Sign.plain c :: tail).all (Sign.isDigit 8) then
    if c.toNat ≤ '3'.toNat then .ok (octalPart digits, 2) else .error (.octalTooLarge digits, 0)
  else .error (.noSuchGroup (Decimal.digitsValue (digits.take 2)), 1)

/-- What an escape stands for, and how many signs after it belong to it. -/
def readEscape (c : Char) (rest : List Sign) : Except Placed (Part × Nat) :=
  if c = 'g' then readName rest
  else if c = '0' then
    let tail := (rest.take 2).takeWhile (Sign.isDigit 8)
    .ok (octalPart ('0' :: tail.flatMap Sign.text), tail.length)
  else if '1' ≤ c ∧ c ≤ '9' then readNumber c rest
  else
    match controls.lookup c with
    | some control => .ok (.text [control], 0)
    | none => if c.isAlpha then .error (.badEscape c, 0) else .ok (.text ['\\', c], 0)

/-- The parts from a position on, of which the next `skip` signs are read already. -/
def partsFrom (position : Nat) : Nat → List Sign → Except Placed (List Part)
  | _, [] => .ok []
  | skip + 1, sign :: rest => partsFrom (position + sign.text.length) skip rest
  | 0, .plain c :: rest => (partsFrom (position + 1) 0 rest).map (.text [c] :: ·)
  | 0, .escape c :: rest =>
    match readEscape c rest with
    | .ok (part, n) => (partsFrom (position + 2) n rest).map (part :: ·)
    | .error (fault, offset) => .error (fault, position + offset)

end Template

abbrev Template := List Template.Part

namespace Template

def parse (t : Text) : Except TemplateError Template :=
  match signs? t with
  | none => .error ⟨t, .endInEscape, t.length - 1⟩
  | some signs => (partsFrom 0 0 signs).mapError fun (fault, position) => ⟨t, fault, position⟩

def fill (matched : Text) (template : Template) : Text :=
  template.flatMap fun
    | .text t => t
    | .matched => matched

end Template

end DesignTokens
