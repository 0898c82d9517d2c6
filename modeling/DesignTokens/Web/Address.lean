import DesignTokens.Number.Decimal
import DesignTokens.Color.Literal
import DesignTokens.Text.Substring

/-!
Internet addresses as text: four decimal numbers with points, or eight groups of hexadecimal digits
with colons, of which one run of zero groups may be left out.
-/
namespace DesignTokens.Web

/-- A number up to 255 without a leading zero. -/
def isOctet (t : Text) : Bool :=
  !t.isEmpty && t.all Char.isDigit && t.length ≤ 3 && (t.length = 1 || t.head? != some '0') &&
    Decimal.digitsValue t ≤ 255

def isIpv4 (t : Text) : Bool :=
  let octets := Text.splitOn '.' t
  octets.length = 4 && octets.all isOctet

def isGroup (t : Text) : Bool := !t.isEmpty && t.length ≤ 4 && t.all Color.isHexDigit

/-- How many groups a list of parts stands for. The last part may be in decimal; it is two groups.
-/
def groupCount? (parts : List Text) : Option Nat :=
  match parts.reverse with
  | [] => some 0
  | last :: front =>
    if !front.all isGroup then none
    else if isGroup last then some parts.length
    else if isIpv4 last then some (parts.length + 1)
    else none

/-- The parts between colons; the empty text has none. -/
def colonParts (t : Text) : List Text := if t.isEmpty then [] else Text.splitOn ':' t

def isBareIpv6 (t : Text) : Bool :=
  match Text.cutFirst? "::".toList t with
  | some (front, back) =>
    (colonParts front).all isGroup &&
      (groupCount? (colonParts back)).any fun n => (colonParts front).length + n ≤ 7
  | none => groupCount? (colonParts t) == some 8

/-- An address of eight groups, with a zone after `%` or without. -/
def isIpv6 (t : Text) : Bool :=
  match Text.cut '%' t with
  | (address, none) => isBareIpv6 address
  | (address, some zone) => !zone.isEmpty && !zone.any (· == '%') && isBareIpv6 address

end DesignTokens.Web
