import DesignTokens.Text.Basic
import DesignTokens.Text.CaseTable

/-!
Letter case. `lower` gives the lower-case spelling of a text, with the two rules of Unicode that
look beyond one character: a dotted capital I becomes two characters, and a capital sigma at the end
of a word becomes a final sigma. `sameLetter` compares two characters without regard to case; it is
the kernel of `letterClass`, hence an equivalence.
-/
namespace DesignTokens.Text

def lowerIn : List CaseRun → Nat → Nat
  | [], n => n
  | run :: rest, n =>
    if n < run.first then n
    else if n ≤ run.last ∧ (n - run.first) % run.step = 0 then (n + run.shift).toNat
    else lowerIn rest n

/-- The lower case of one character, again one character. -/
def lowerChar (c : Char) : Char :=
  if c.toNat < 128 then c.toLower else Char.ofNat (lowerIn lowerRuns c.toNat)

def isCased (c : Char) : Bool := inRanges casedRanges c.toNat

def isCaseIgnorable (c : Char) : Bool := inRanges caseIgnorableRanges c.toNat

/-- Is the first character that is not passed over a letter with case? -/
def casedAhead (t : Text) : Bool := nextIs isCased (t.dropWhile isCaseIgnorable)

/-- Here `casedBefore` tells whether the last character that is not passed over is a letter with
case. -/
def lowerFrom (casedBefore : Bool) : Text → Text
  | [] => []
  | c :: rest =>
    let spelled : Text :=
      if c = 'Σ' then [if casedBefore && !casedAhead rest then 'ς' else 'σ']
      else if c = 'İ' then ['i', '\u0307']
      else [lowerChar c]
    spelled ++ lowerFrom (if isCaseIgnorable c then casedBefore else isCased c) rest

def lower (t : Text) : Text :=
  if t.all (·.toNat < 128) then t.map Char.toLower else lowerFrom false t

def variantIn : List (Nat × Nat) → Nat → Nat
  | [], n => n
  | (variant, letter) :: rest, n => if n = variant then letter else variantIn rest n

/-- The representative of all characters that differ from `c` in case only. -/
def letterClass (c : Char) : Char :=
  if c.toNat < 128 then c.toLower
  else Char.ofNat (variantIn letterVariants (lowerChar c).toNat)

def sameLetter (a b : Char) : Bool := letterClass a == letterClass b

/-- Is `word` a prefix of the text up to letter case? -/
def isPrefixNoCase : Text → Text → Bool
  | [], _ => true
  | _ :: _, [] => false
  | a :: word, b :: rest => sameLetter a b && isPrefixNoCase word rest

/-- How a word may be spelled: as it is, or in any letter case. -/
inductive Spelling where
  | exact
  | anyCase
  deriving DecidableEq, Repr

def Spelling.matches : Spelling → Text → Text → Bool
  | exact => List.isPrefixOf
  | anyCase => isPrefixNoCase

def containsNoCase (part : Text) : Text → Bool
  | [] => part.isEmpty
  | c :: rest => isPrefixNoCase part (c :: rest) || containsNoCase part rest

end DesignTokens.Text
