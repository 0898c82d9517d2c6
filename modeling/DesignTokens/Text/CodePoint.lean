import DesignTokens.Text.LetterCase

/-!
Text in which halves of surrogate pairs may stand alone. Escapes of UTF-16 units can spell such
halves, but they are no characters and have no encoding. `readable` puts U+FFFD in their place;
`text?` gives the text if there are none.
-/
namespace DesignTokens

/-- A character, or the half U+D800 + n of a surrogate pair. -/
inductive CodePoint where
  | char (c : Char)
  | half (n : Fin 0x800)
  deriving DecidableEq, Repr

abbrev CodeText := List CodePoint

/-- The first run of halves in a text: how many code points are before it, its first half, and how
long it is. -/
structure LoneHalves where
  position : Nat
  first : Fin 0x800
  length : Nat
  deriving DecidableEq, Repr

namespace CodePoint

def value : CodePoint → Nat
  | char c => c.toNat
  | half n => 0xD800 + n

def half? : CodePoint → Option (Fin 0x800)
  | char _ => none
  | half n => some n

def isHalf (p : CodePoint) : Bool := p.half?.isSome

def readable : CodePoint → Char
  | char c => c
  | half _ => '\uFFFD'

/-- The half of a pair that a code unit is; its lowest eleven bits count. -/
def ofUnit (n : Nat) : CodePoint := half ⟨n % 0x800, Nat.mod_lt n (by decide)⟩

/-- A code point as a character: the halves have the characters from `base` on. -/
def spelled (base : Nat) : CodePoint → Char
  | char c => c
  | half n => Char.ofNat (base + n)

end CodePoint

namespace LoneHalves

def message (h : LoneHalves) : Text :=
  let place : Text :=
    if h.length = 1 then
      "character '\\u".toList ++ Text.hexDigits 4 (0xD800 + h.first) ++
        s!"' in position {h.position}".toList
    else s!"characters in position {h.position}-{h.position + h.length - 1}".toList
  "'utf-8' codec can't encode ".toList ++ place ++ ": surrogates not allowed".toList

end LoneHalves

namespace CodeText

def ofText (t : Text) : CodeText := t.map .char

def readable (t : CodeText) : Text := t.map CodePoint.readable

@[simp] theorem readable_ofText (t : Text) : readable (ofText t) = t := by
  simp only [readable, ofText, List.map_map]
  exact List.map_id t

def spelled (base : Nat) (t : CodeText) : Text := t.map (CodePoint.spelled base)

/-- Where the characters of halves begin, in two ranges without any other use. Both are multiples of
the number of halves. -/
def firstBase : Nat := 0xE000

def secondBase : Nat := 0xF0000

/-- The text with the two spellings. They differ where it has halves. -/
def ofSpellings : Text → Text → CodeText
  | c :: first, d :: second =>
    (if c = d then .char c else .ofUnit c.toNat) :: ofSpellings first second
  | _, _ => []

def halves (t : CodeText) : List (Fin 0x800) := t.filterMap CodePoint.half?

/-- The text, if there are no halves in it. -/
def text? (t : CodeText) : Except LoneHalves Text :=
  match t.dropWhile (!·.isHalf) with
  | .half n :: rest =>
    .error ⟨(t.takeWhile (!·.isHalf)).length, n, 1 + (rest.takeWhile CodePoint.isHalf).length⟩
  | _ => .ok t.readable

/-- The lower-case spelling, after some characters that are given in reverse. A half has no case and
ends a word. -/
def lowerFrom (run : Text) : CodeText → CodeText
  | [] => ofText (Text.lower run.reverse)
  | .char c :: rest => lowerFrom (c :: run) rest
  | .half n :: rest => ofText (Text.lower run.reverse) ++ .half n :: lowerFrom [] rest

def lower (t : CodeText) : CodeText := lowerFrom [] t

end CodeText

end DesignTokens
