import DesignTokens.Text.Token

/-!
Easing functions in a value: the keywords, and calls of `steps` and `cubic-bezier` up to the first
closing parenthesis. An easing is not a part of a longer name; where a keyword continues into a
name, shorter keywords are tried.
-/
namespace DesignTokens.Easing

def keywords : List Text :=
  ["ease-in-out".toList, "ease-in".toList, "ease-out".toList, "ease".toList, "linear".toList,
    "step-start".toList, "step-end".toList]

def calls : List Text := ["steps(".toList, "cubic-bezier(".toList]

def isNamePart (c : Char) : Bool := Text.isWord c || c == '-'

def keywordLength? (t keyword : Text) : Option Nat :=
  if keyword.isPrefixOf t then some keyword.length else none

/-- The length of a call with its closing parenthesis. -/
def callLength? (t head : Text) : Option Nat :=
  if head.isPrefixOf t then
    let arguments := (t.drop head.length).takeWhile (· != ')')
    let length := head.length + arguments.length
    if length < t.length then some (length + 1) else none
  else none

/-- The lengths of all easings at the start of a text, the longest keyword first. -/
def lengths (t : Text) : List Nat :=
  keywords.filterMap (keywordLength? t) ++ calls.filterMap (callLength? t)

def token : Text.Recognizer := fun before t =>
  if before.any isNamePart then none
  else (lengths t).find? fun n => !Text.nextIs isNamePart (t.drop n)

def literals (value : Text) : List Text := Text.tokens token value

end DesignTokens.Easing
