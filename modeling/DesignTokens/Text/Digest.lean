import DesignTokens.Text.Utf8

/-!
The MD5 digest of bytes: 64-byte blocks of the padded message are mixed in turn into four words, in
64 steps each. `shortDigest` names a text by the first eight hexadecimal digits.
-/
namespace DesignTokens.Md5

/-- The first 32 bits of the fractions of |sin 1|, |sin 2|, …, |sin 64|. -/
def sines : List UInt32 := [
    0xD76AA478, 0xE8C7B756, 0x242070DB, 0xC1BDCEEE, 0xF57C0FAF, 0x4787C62A, 0xA8304613, 0xFD469501,
    0x698098D8, 0x8B44F7AF, 0xFFFF5BB1, 0x895CD7BE, 0x6B901122, 0xFD987193, 0xA679438E, 0x49B40821,
    0xF61E2562, 0xC040B340, 0x265E5A51, 0xE9B6C7AA, 0xD62F105D, 0x02441453, 0xD8A1E681, 0xE7D3FBC8,
    0x21E1CDE6, 0xC33707D6, 0xF4D50D87, 0x455A14ED, 0xA9E3E905, 0xFCEFA3F8, 0x676F02D9, 0x8D2A4C8A,
    0xFFFA3942, 0x8771F681, 0x6D9D6122, 0xFDE5380C, 0xA4BEEA44, 0x4BDECFA9, 0xF6BB4B60, 0xBEBFBC70,
    0x289B7EC6, 0xEAA127FA, 0xD4EF3085, 0x04881D05, 0xD9D4D039, 0xE6DB99E5, 0x1FA27CF8, 0xC4AC5665,
    0xF4292244, 0x432AFF97, 0xAB9423A7, 0xFC93A039, 0x655B59C3, 0x8F0CCC92, 0xFFEFF47D, 0x85845DD1,
    0x6FA87E4F, 0xFE2CE6E0, 0xA3014314, 0x4E0811A1, 0xF7537E82, 0xBD3AF235, 0x2AD7D2BB, 0xEB86D391]

structure State where
  a : UInt32
  b : UInt32
  c : UInt32
  d : UInt32
  deriving DecidableEq, Repr

def initial : State := ⟨0x67452301, 0xEFCDAB89, 0x98BADCFE, 0x10325476⟩

def rotate (x n : UInt32) : UInt32 := x <<< n ||| x >>> (32 - n)

/-- The bits mixed in at a step, the word of the block that is read, and the four rotations that
take turns in its round. -/
def round (i : Nat) (s : State) : UInt32 × Nat × List UInt32 :=
  match i / 16 with
  | 0 => (s.b &&& s.c ||| ~~~s.b &&& s.d, i, [7, 12, 17, 22])
  | 1 => (s.d &&& s.b ||| ~~~s.d &&& s.c, 5 * i + 1, [5, 9, 14, 20])
  | 2 => (s.b ^^^ s.c ^^^ s.d, 3 * i + 5, [4, 11, 16, 23])
  | _ => (s.c ^^^ (s.b ||| ~~~s.d), 7 * i, [6, 10, 15, 21])

def step (block : Array UInt32) (s : State) (entry : UInt32 × Nat) : State :=
  let (sine, i) := entry
  let (bits, word, rotations) := round i s
  let sum := s.a + bits + sine + block.getD (word % 16) 0
  ⟨s.d, s.b + rotate sum (rotations.getD (i % 4) 0), s.b, s.c⟩

def compress (s : State) (block : Array UInt32) : State :=
  let t := sines.zipIdx.foldl (step block) s
  ⟨s.a + t.a, s.b + t.b, s.c + t.c, s.d + t.d⟩

/-- A number as bytes, the lowest first. -/
def littleEndian : Nat → Nat → Bytes
  | 0, _ => []
  | count + 1, n => UInt8.ofNat (n % 256) :: littleEndian count (n / 256)

/-- The message, a bit that is set, zeros up to eight bytes before the end of a block, and the count
of bits of the message. -/
def pad (message : Bytes) : Bytes :=
  message ++ 0x80 :: List.replicate ((119 - message.length % 64) % 64) 0 ++
    littleEndian 8 (8 * message.length)

/-- Whole words of four bytes, the lowest byte first. -/
def words : Bytes → List UInt32
  | a :: b :: c :: d :: rest =>
    UInt32.ofNat (a.toNat + 256 * (b.toNat + 256 * (c.toNat + 256 * d.toNat))) :: words rest
  | _ => []

/-- The words in `count` blocks of sixteen. -/
def blocks : Nat → List UInt32 → List (Array UInt32)
  | 0, _ => []
  | count + 1, ws => (ws.take 16).toArray :: blocks count (ws.drop 16)

def digest (message : Bytes) : Bytes :=
  let padded := pad message
  let s := (blocks (padded.length / 64) (words padded)).foldl compress initial
  [s.a, s.b, s.c, s.d].flatMap fun w => littleEndian 4 w.toNat

end DesignTokens.Md5

namespace DesignTokens.Text

/-- Eight hexadecimal digits that stand for a text. -/
def shortDigest (t : Text) : Text :=
  ((Md5.digest (Utf8.encode t)).take 4).flatMap fun b => hexDigits 2 b.toNat

end DesignTokens.Text
