import DesignTokens.Text.Basic

/-!
Text as UTF-8 bytes. Bytes are read in one pass into characters and faults; a fault is the longest
start of a character that cannot go on, or a byte that starts none. `decode` refuses bytes with a
fault, `decodeLossy` puts U+FFFD in the place of each. `withLineFeeds` gives text the line ends that
a text file is read with.
-/
namespace DesignTokens

abbrev Bytes := List UInt8

namespace Utf8

def encode (t : Text) : Bytes := t.flatMap String.utf8EncodeChar

inductive Reason where
  | invalidStart
  | invalidContinuation
  | unexpectedEnd
  deriving DecidableEq, Repr

namespace Reason

def message : Reason → String
  | invalidStart => "invalid start byte"
  | invalidContinuation => "invalid continuation byte"
  | unexpectedEnd => "unexpected end of data"

end Reason

/-- Bytes from a position on that are no character, with the first of them. -/
structure Fault where
  first : UInt8
  position : Nat
  length : Nat
  reason : Reason
  deriving DecidableEq, Repr

namespace Fault

def place (f : Fault) : Text :=
  if f.length = 1 then
    "byte 0x".toList ++ Text.hexDigits 2 f.first.toNat ++ s!" in position {f.position}".toList
  else s!"bytes in position {f.position}-{f.position + f.length - 1}".toList

def message (f : Fault) : Text :=
  "'utf-8' codec can't decode ".toList ++ f.place ++ ": ".toList ++ f.reason.message.toList

end Fault

/-- A character of which some bytes are read: the bits so far, how many bytes are missing, and the
range of the next byte. -/
structure Pending where
  first : UInt8
  seen : Nat
  missing : Nat
  bits : Nat
  low : UInt8 := 0x80
  high : UInt8 := 0xBF

/-- What a first byte starts; the second byte is bounded so that no character has two encodings, is
a surrogate or is too large. -/
def begin? (b : UInt8) : Option Pending :=
  if b < 0x80 then some ⟨b, 1, 0, b.toNat, 0x80, 0xBF⟩
  else if b < 0xC2 then none
  else if b < 0xE0 then some ⟨b, 1, 1, b.toNat % 0x20, 0x80, 0xBF⟩
  else if b < 0xF0 then
    some ⟨b, 1, 2, b.toNat % 0x10, if b = 0xE0 then 0xA0 else 0x80, if b = 0xED then 0x9F else 0xBF⟩
  else if b < 0xF5 then
    some ⟨b, 1, 3, b.toNat % 0x08, if b = 0xF0 then 0x90 else 0x80, if b = 0xF4 then 0x8F else 0xBF⟩
  else none

def Pending.next (p : Pending) (b : UInt8) : Pending :=
  ⟨p.first, p.seen + 1, p.missing - 1, p.bits * 0x40 + b.toNat % 0x40, 0x80, 0xBF⟩

abbrev Piece := Except Fault Char

/-- The pieces that are complete with a character under way, and the one still under way. -/
def settle (p : Pending) : List Piece × Option Pending :=
  if p.missing = 0 then ([.ok (Char.ofNat p.bits)], none) else ([], some p)

def start (position : Nat) (b : UInt8) : List Piece × Option Pending :=
  match begin? b with
  | some p => settle p
  | none => ([.error ⟨b, position, 1, .invalidStart⟩], none)

def step (position : Nat) (pending : Option Pending) (b : UInt8) : List Piece × Option Pending :=
  match pending with
  | none => start position b
  | some p =>
    if p.low ≤ b ∧ b ≤ p.high then settle (p.next b)
    else
      let (pieces, under) := start position b
      (.error ⟨p.first, position - p.seen, p.seen, .invalidContinuation⟩ :: pieces, under)

def piecesFrom (position : Nat) : Option Pending → Bytes → List Piece
  | none, [] => []
  | some p, [] => [.error ⟨p.first, position - p.seen, p.seen, .unexpectedEnd⟩]
  | pending, b :: rest =>
    let (pieces, pending) := step position pending b
    pieces ++ piecesFrom (position + 1) pending rest

def pieces (bytes : Bytes) : List Piece := piecesFrom 0 none bytes

def decode (bytes : Bytes) : Except Fault Text := (pieces bytes).mapM id

def decodeLossy (bytes : Bytes) : Text :=
  (pieces bytes).map fun
    | .ok c => c
    | .error _ => '\uFFFD'

end Utf8

/-- Each carriage return, with a line feed after it or alone, as one line feed. -/
def Text.withLineFeeds : Text → Text
  | [] => []
  | '\r' :: '\n' :: rest => '\n' :: withLineFeeds rest
  | '\r' :: rest => '\n' :: withLineFeeds rest
  | c :: rest => c :: withLineFeeds rest

end DesignTokens
