import DesignTokens.Text.CharTable
import DesignTokens.Text.WordTable

/-!
Text as a list of characters, the three character classes that stylesheet values are read by, and
the cuts made with them: blanks are trimmed, runs of blanks separate words, a character separates
pieces.
-/
namespace DesignTokens

abbrev Text := List Char

namespace Text

def blankRanges : List (Nat × Nat) := [
    (0x9, 0xD), (0x1C, 0x20), (0x85, 0x85), (0xA0, 0xA0), (0x1680, 0x1680), (0x2000, 0x200A),
    (0x2028, 0x2029), (0x202F, 0x202F), (0x205F, 0x205F), (0x3000, 0x3000)]

/-- The first digit of each run of ten decimal digits above ASCII, in ascending order (Unicode 14).
-/
def digitZeros : List Nat := [
    0x660, 0x6F0, 0x7C0, 0x966, 0x9E6, 0xA66, 0xAE6, 0xB66, 0xBE6, 0xC66, 0xCE6, 0xD66, 0xDE6,
    0xE50, 0xED0, 0xF20, 0x1040, 0x1090, 0x17E0, 0x1810, 0x1946, 0x19D0, 0x1A80, 0x1A90, 0x1B50,
    0x1BB0, 0x1C40, 0x1C50, 0xA620, 0xA8D0, 0xA900, 0xA9D0, 0xA9F0, 0xAA50, 0xABF0, 0xFF10, 0x104A0,
    0x10D30, 0x11066, 0x110F0, 0x11136, 0x111D0, 0x112F0, 0x11450, 0x114D0, 0x11650, 0x116C0,
    0x11730, 0x118E0, 0x11950, 0x11C50, 0x11D50, 0x11DA0, 0x16A60, 0x16AC0, 0x16B50, 0x1D7CE,
    0x1D7D8, 0x1D7E2, 0x1D7EC, 0x1D7F6, 0x1E140, 0x1E2F0, 0x1E950, 0x1FBF0]

/-- Blanks: the separators of ASCII, U+001C to U+001F among them, and the spaces of Unicode. -/
def isBlank (c : Char) : Bool := inRanges blankRanges c.toNat

def digitIn : List Nat → Nat → Option Nat
  | [], _ => none
  | first :: rest, n =>
    if n < first then none
    else if n < first + 10 then some (n - first)
    else digitIn rest n

/-- The value of a decimal digit of any script. -/
def digit? (c : Char) : Option Nat :=
  if c.toNat < 128 then
    if c.isDigit then some (c.toNat - '0'.toNat) else none
  else digitIn digitZeros c.toNat

def isDigit (c : Char) : Bool := (digit? c).isSome

/-- Characters of a word: letters and numeric characters of any script, and the underscore. -/
def isWord (c : Char) : Bool :=
  if c.toNat < 128 then c.isAlphanum || c == '_' else inRanges wordRanges c.toNat

/-- Is the character that follows, if there is one, in the class? -/
def nextIs (p : Char → Bool) : Text → Bool
  | [] => false
  | c :: _ => p c

/-- Is there a word boundary between the character before and the text that follows? -/
def atBoundary (before : Option Char) (rest : Text) : Bool :=
  before.any isWord != nextIs isWord rest

def isQuote (c : Char) : Bool := c == '"' || c == '\''

def trimLeft (t : Text) : Text := t.dropWhile isBlank

def trimRight (t : Text) : Text := (t.reverse.dropWhile isBlank).reverse

def trim (t : Text) : Text := trimRight (trimLeft t)

/-- The text up to the first `sep`, and what follows that `sep` if there is one. -/
def cut (sep : Char) : Text → Text × Option Text
  | [] => ([], none)
  | c :: rest =>
    if c = sep then ([], some rest)
    else
      let (head, tail) := cut sep rest
      (c :: head, tail)

theorem length_cut_tail {sep : Char} {t tail : Text} (h : (cut sep t).2 = some tail) :
    tail.length < t.length := by
  induction t with
  | nil => simp [cut] at h
  | cons c rest ih =>
      simp only [cut] at h
      split at h
      · simp only [Option.some.injEq] at h
        simp [h]
      · exact Nat.lt_succ_of_lt (ih h)

/-- The text is what is before the first `sep`, the `sep` if there is one, and what follows it. -/
theorem cut_text (sep : Char) (t : Text) :
    (cut sep t).1 ++ (match (cut sep t).2 with | some tail => sep :: tail | none => []) = t := by
  induction t with
  | nil => simp [cut]
  | cons c rest ih =>
      by_cases h : c = sep
      · simp [cut, h]
      · simpa [cut, h] using ih

theorem length_dropWhile_le (p : Char → Bool) (t : Text) : (t.dropWhile p).length ≤ t.length :=
  (List.dropWhile_sublist p).length_le

/-- The pieces between the `sep`s: one more than there are separators. -/
def splitOn (sep : Char) : Text → List Text
  | [] => [[]]
  | c :: rest =>
    if c = sep then [] :: splitOn sep rest
    else
      match splitOn sep rest with
      | [] => [[c]]
      | piece :: pieces => (c :: piece) :: pieces

/-- The maximal runs of characters that are not blank. -/
def words : Text → List Text
  | [] => []
  | c :: rest =>
    if isBlank c then words rest
    else
      match rest, words rest with
      | d :: _, word :: others => if isBlank d then [c] :: word :: others else (c :: word) :: others
      | _, others => [c] :: others

/-- What follows the first `sep`; all of the text where there is none. -/
def after (sep : Char) (t : Text) : Text := (cut sep t).2.getD t

/-- The text before the last `sep`; all of it where there is none. -/
def beforeLast (sep : Char) (t : Text) : Text :=
  match cut sep t.reverse with
  | (_, some front) => front.reverse
  | (_, none) => t

/-- The order of texts, character by character; a text comes before those that it starts. -/
def precedes : Text → Text → Bool
  | [], _ => true
  | _ :: _, [] => false
  | a :: s, b :: t => a.toNat < b.toNat || (a == b && precedes s t)

def join (sep : Text) : List Text → Text
  | [] => []
  | [t] => t
  | t :: rest => t ++ sep ++ join sep rest

/-- A number in hexadecimal digits, with zeros in front up to a width. -/
def hexDigits (width n : Nat) : Text :=
  let ds := Nat.toDigits 16 n
  List.replicate (width - ds.length) '0' ++ ds

/-- Is the text at its end, or one line feed before it? -/
def atEnd : Text → Bool
  | [] => true
  | [c] => c == '\n'
  | _ => false

end Text

end DesignTokens
