import DesignTokens.Number.Decimal
import DesignTokens.Number.FixedPoint
import DesignTokens.Text.Token

/-!
Durations: a numeral with the unit `s` or `ms`. In a value a duration does not start inside a word
or a number and ends its word. By itself a literal is measured in milliseconds, and it is written in
seconds.
-/
namespace DesignTokens.Duration

def unitNames : List Text := ["ms".toList, "s".toList]

def token : Text.Recognizer := fun before t => do
  let (_, rest) ← Numeral.scan? t
  let unit ← unitNames.find? (·.isPrefixOf rest)
  let tail := rest.drop unit.length
  if before.any (fun c => Text.isWord c || c == '.') || Text.nextIs Text.isWord tail then none
  else some (t.length - tail.length)

def literals (value : Text) : List Text := Text.tokens token value

/-- Milliseconds. A number that does not end in `ms` is in seconds; 0 where no number is in front.
-/
def milliseconds (literal : Text) : Float :=
  let t := Text.lower (Text.trim literal)
  match Numeral.scan? t with
  | some (n, _) => if "ms".toList.isSuffixOf t then n.toFloat else n.toFloat * 1000.0
  | none => 0.0

/-- A duration in seconds with at most three decimal places. -/
def inSeconds (literal : Text) : Text := Number.trimmed 3 (milliseconds literal / 1000.0) ++ ['s']

end DesignTokens.Duration
