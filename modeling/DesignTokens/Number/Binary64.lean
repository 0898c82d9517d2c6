import DesignTokens.Number.Fault

/-!
Operations on binary64 numbers beyond the basic four. A finite number is ±m · 2^q with whole m and
q; the floor and the remainder of a division by a whole number are whole-number arithmetic on m and
q. Comparisons with a value that is not a number are false, which is why `larger`, `smaller` and
`clamp` say what they keep.
-/
namespace DesignTokens.Number

open Float.Model (UnpackedFloat)

/-- The number nearest to ±m · 2^q. -/
def ofDyadic (sign : UnpackedFloat.Sign) (m : Nat) (q : Int) : Float :=
  ⟨.pack (.round .binary64 sign m q)⟩

/-- The largest whole number that is at most m · 2^q. -/
def floorDyadic (m q : Int) : Int :=
  if q < 0 then m.fdiv (Nat.pow 2 (-q).toNat) else m * Nat.pow 2 q.toNat

/-- The largest whole number that is at most x; 0 where x is not finite. -/
def floor (x : Float) : Int :=
  match x.toModel.unpack with
  | .finite sign m q _ => floorDyadic (sign.apply m) q
  | _ => 0

/-- The nearest whole number; one half is rounded up. -/
def nearest (x : Float) : Int := floor (x + 0.5)

/-- Why a number has no nearest whole number. -/
def wholeFault? (x : Float) : Option NumberFault :=
  match x.toModel.unpack with
  | .infinity _ => some .infinityToInteger
  | .notANumber => some .notANumberToInteger
  | _ => none

/-- The nearest whole number of a finite number. -/
def nearest? (x : Float) : Except NumberFault Int :=
  match wholeFault? x with
  | some fault => .error fault
  | none => .ok (nearest x)

/-- The remainder of m · 2^q under division by k, over the same power of two, or over 1 if q is
not negative. -/
def remainderDyadic (m : Nat) (q : Int) (k : Nat) : Nat × Int :=
  if q < 0 then (m % (k * Nat.pow 2 (-q).toNat), q) else (m * Nat.pow 2 q.toNat % k, 0)

/-- The remainder of a division by a positive whole number. It is not negative: a negative number
leaves `k` less the remainder of its size. -/
def modulo (x : Float) (k : Nat) : Float :=
  match x.toModel.unpack with
  | .finite sign m q _ =>
    let (r, q) := remainderDyadic m q k
    if r = 0 then 0.0
    else
      match sign with
      | .positive => ofDyadic .positive r q
      | .negative => ofDyadic .negative r q + Float.ofNat k
  | .zero _ => 0.0
  | .infinity _ => 0.0 / 0.0
  | .notANumber => x

/-- Division, refused where the divisor is zero. -/
def divide (x y : Float) : Except NumberFault Float :=
  if y == 0.0 then .error .divisionByZero else .ok (x / y)

def infinity : Float := 1.0 / 0.0

def notANumber : Float := 0.0 / 0.0

def isFinite (x : Float) : Bool := x - x == 0.0

/-- The larger of two numbers; the first if neither is larger. -/
def larger (x y : Float) : Float := if y > x then y else x

/-- The smaller of two numbers; the first if neither is smaller. -/
def smaller (x y : Float) : Float := if y < x then y else x

/-- The nearest number in the range from `low` to `high`; `low` where there is none. -/
def clamp (x low high : Float) : Float := smaller high (larger low x)

end DesignTokens.Number
