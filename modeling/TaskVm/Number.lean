/-!
# Numbers

The machine's numbers are IEEE doubles. A `Number` is its 64 bits, not a `Float`: the
bits of a NaN survive being stored, written to a program file and sorted, and a `Float`
forgets them.

Order, equality, sums and the conversions to and from integers are decided on the bits,
in exact arithmetic. Only products, quotients, the square root and the transcendental
functions go through `Float`. For all operations the NaN rule is spelled out: an operand
that is a NaN is returned quieted, the left one first, and an operation that makes a NaN
out of numbers makes the one with the sign bit set.
-/

namespace TaskVm

/-- A double, as its bits. -/
structure Number where
  bits : UInt64
deriving DecidableEq, Inhabited

namespace Number

/-! ### The parts of a number -/

/-- The highest of the 64 bits, set in the negative numbers. -/
abbrev signBit : Nat := 0x8000000000000000

/-- The lowest bit of the exponent, and the bit that stands before a significand. -/
abbrev leadingBit : Nat := 0x10000000000000

/-- The bit below it, set in the quiet NaNs. -/
abbrev quietBit : Nat := 0x8000000000000

/-- The bits without the sign, which order the magnitudes. -/
def magnitude (x : Number) : Nat := x.bits.toNat % signBit

/-- The sign bit is set. -/
def isNegative (x : Number) : Bool := signBit ≤ x.bits.toNat

/-- The magnitude of infinity; everything above it is a NaN. -/
def infinityMagnitude : Nat := 2047 * leadingBit

/-- Not a number. -/
def isNaN (x : Number) : Bool := infinityMagnitude < x.magnitude

/-- Neither a NaN nor an infinity. -/
def isFinite (x : Number) : Bool := x.magnitude < infinityMagnitude

/-- One of the two infinities. -/
def isInfinite (x : Number) : Bool := x.magnitude = infinityMagnitude

/-- One of the two zeros. -/
def isZero (x : Number) : Bool := x.magnitude = 0

/-- The number with a given sign and magnitude. -/
def ofParts (negative : Bool) (magnitude : Nat) : Number :=
  ⟨UInt64.ofNat (magnitude + if negative then signBit else 0)⟩

/-- A finite number is `significand · (2 to the exponent)`, up to its sign. -/
def significand (x : Number) : Nat :=
  if x.magnitude / leadingBit = 0 then x.magnitude else x.magnitude % leadingBit + leadingBit

/-- The weight of the significand's last bit, as a power of two. -/
def exponent (x : Number) : Int :=
  if x.magnitude / leadingBit = 0 then -1074 else (x.magnitude / leadingBit : Nat) - 1075

/-- The NaN that an operation on numbers makes. -/
def madeNaN : Number := ofParts true (2047 * leadingBit + quietBit)

/-- The NaN that stands in programs. -/
def nan : Number := ofParts false (2047 * leadingBit + quietBit)

/-- An infinity. -/
def infinity (negative : Bool) : Number := ofParts negative infinityMagnitude

/-- A zero. -/
def zero (negative : Bool) : Number := ofParts negative 0

/-- A NaN with its quiet bit set. -/
def quiet (x : Number) : Number :=
  if x.magnitude / quietBit % 2 = 0 then ⟨UInt64.ofNat (x.bits.toNat + quietBit)⟩ else x

/-- A NaN whose quiet bit is not set, which no operation passes over. -/
def isSignaling (x : Number) : Bool := x.isNaN && x.magnitude / quietBit % 2 == 0

/-! ### Rounding -/

/-- The quotient of two integers to the nearest integer, a tie to the even one. -/
def roundDiv (num den : Nat) : Nat :=
  let q := num / den
  let twice := 2 * (num % den)
  if den < twice || (twice == den && q % 2 == 1) then q + 1 else q

/-- The power of two that the last bit of `num / den` weighs. -/
def lastPlace (num den : Nat) : Int :=
  let guess : Int := (num.log2 : Int) - (den.log2 : Int) - 52
  let small := num * Nat.pow 2 (-guess).toNat < leadingBit * (den * Nat.pow 2 guess.toNat)
  max (if small then guess - 1 else guess) (-1074)

/-- `± num / den` to the nearest number, a tie to the even one, overflow to infinity. -/
def ofRatio (negative : Bool) (num den : Nat) : Number :=
  if num = 0 then zero negative
  else
    let e := lastPlace num den
    let m := roundDiv (num * Nat.pow 2 (-e).toNat) (den * Nat.pow 2 e.toNat)
    ofParts negative (min ((e + 1074).toNat * leadingBit + m) infinityMagnitude)

/-- An integer to the nearest number. -/
def ofNat (n : Nat) : Number := ofRatio false n 1

/-- A signed integer to the nearest number; there is no negative zero among them. -/
def ofInt (n : Int) : Number := ofRatio (n < 0) n.natAbs 1

instance : Coe Nat Number := ⟨ofNat⟩

/-! ### Order and equality -/

/-- An integer that orders the numbers as they are ordered, both zeros at 0. -/
def orderKey (x : Number) : Int := if x.isNegative then -(x.magnitude : Int) else x.magnitude

/-- The order of two numbers; a NaN is not comparable with anything. -/
def compare? (x y : Number) : Option Ordering :=
  if x.isNaN || y.isNaN then none else some (compare x.orderKey y.orderKey)

/-- IEEE equality: the zeros are equal and no NaN is equal to anything. -/
def equal (x y : Number) : Bool := x.compare? y == some .eq

/-- IEEE less-than. -/
def less (x y : Number) : Bool := x.compare? y == some .lt

/-- The number held between two bounds; a NaN stays one. -/
def clamp (x lo hi : Number) : Number :=
  if x.less lo then lo else if hi.less x then hi else x

/-- An integer that orders all bit patterns: negative NaNs first, -0 before 0, NaNs last. -/
def totalKey (x : Number) : Int :=
  if x.isNegative then -(x.magnitude : Int) - 1 else x.magnitude

/-! ### Integers in numbers -/

/-- The integer part of a finite number's magnitude. -/
def floorMagnitude (x : Number) : Nat :=
  x.significand * Nat.pow 2 x.exponent.toNat / Nat.pow 2 (-x.exponent).toNat

/-- The number is an integer: finite and without a fraction. -/
def isIntegral (x : Number) : Bool :=
  x.isFinite && x.significand * Nat.pow 2 x.exponent.toNat % Nat.pow 2 (-x.exponent).toNat == 0

/-- The number is an odd integer. -/
def isOdd (x : Number) : Bool := x.isIntegral && x.floorMagnitude % 2 == 1

/-- The integer part, toward zero; a NaN and the infinities have none. -/
def truncate? (x : Number) : Option Int :=
  if x.isFinite then
    some (if x.isNegative then -(x.floorMagnitude : Int) else x.floorMagnitude)
  else none

/-- The integer part held between two bounds; a NaN counts as 0. -/
def clampToInt (lo hi : Int) (x : Number) : Int :=
  match x.truncate? with
  | some n => max lo (min n hi)
  | none => if x.isNaN then 0 else if x.isNegative then lo else hi

/-- The integer part as an unsigned word, held at its bounds. -/
def toWord (x : Number) : Nat := (x.clampToInt 0 0xffffffffffffffff).toNat

/-- The integer part as a signed word, held at its bounds. -/
def toSignedWord (x : Number) : Int := x.clampToInt (-0x8000000000000000) 0x7fffffffffffffff

/-! ### Rounding to integers, the sign of the argument kept -/

/-- Replace a finite number's magnitude by an integer; other numbers stay, NaNs quieted. -/
def withIntegerMagnitude (pick : Number → Nat) (x : Number) : Number :=
  if x.isFinite then ofRatio x.isNegative (pick x) 1
  else if x.isNaN then x.quiet else x

/-- Toward zero. -/
def trunc : Number → Number := withIntegerMagnitude floorMagnitude

/-- Toward minus infinity. -/
def floor : Number → Number :=
  withIntegerMagnitude fun x =>
    if x.isNegative && !x.isIntegral then x.floorMagnitude + 1 else x.floorMagnitude

/-- Toward plus infinity. -/
def ceil : Number → Number :=
  withIntegerMagnitude fun x =>
    if x.isNegative || x.isIntegral then x.floorMagnitude else x.floorMagnitude + 1

/-- To the nearest integer, a half away from zero. -/
def round : Number → Number :=
  withIntegerMagnitude fun x =>
    (2 * x.significand * Nat.pow 2 x.exponent.toNat + Nat.pow 2 (-x.exponent).toNat) /
      (2 * Nat.pow 2 (-x.exponent).toNat)

/-! ### Arithmetic -/

/-- The double with these bits, its NaN payload forgotten. -/
def toFloat (x : Number) : Float := Float.ofBits x.bits

/-- The number a computation on doubles gave. -/
def ofFloat (x : Float) : Number := if x.isNaN then madeNaN else ⟨x.toBits⟩

/-- An operation of two operands that returns a NaN operand. -/
def liftExact (f : Number → Number → Number) (x y : Number) : Number :=
  if x.isNaN then x.quiet
  else if y.isNaN then y.quiet
  else f x y

/-- The same for an operation on doubles. -/
def lift (f : Float → Float → Float) : Number → Number → Number :=
  liftExact fun x y => ofFloat (f x.toFloat y.toFloat)

/-- An operation of one operand that returns a NaN operand. -/
def liftUnary (f : Float → Float) (x : Number) : Number :=
  if x.isNaN then x.quiet else ofFloat (f x.toFloat)

/-- Flip the sign bit, of a NaN too. -/
def neg (x : Number) : Number := ofParts (!x.isNegative) x.magnitude

/-- A finite number in units of a power of two that it is a multiple of. -/
def inUnits (x : Number) (e : Int) : Int :=
  let units : Nat := x.significand * Nat.pow 2 (x.exponent - e).toNat
  if x.isNegative then -units else units

/-- The sum of two numbers that are not NaNs: the exact one, rounded. A sum that vanishes is
negative only if both zeros are. -/
def sum (x y : Number) : Number :=
  if x.isInfinite then
    if y.isInfinite && x.isNegative != y.isNegative then madeNaN else x
  else if y.isInfinite then y
  else
    let e := min x.exponent y.exponent
    let units := x.inUnits e + y.inUnits e
    ofRatio (if units = 0 then x.isNegative && y.isNegative else units < 0)
      (units.natAbs * Nat.pow 2 e.toNat) (Nat.pow 2 (-e).toNat)

def add : Number → Number → Number := liftExact sum
def sub : Number → Number → Number := liftExact fun x y => x.sum y.neg
def mul : Number → Number → Number := lift (· * ·)
def div : Number → Number → Number := lift (· / ·)

/-- Clear the sign bit, of a NaN too. -/
def abs (x : Number) : Number := ofParts false x.magnitude

/-- The remainder of the division truncated toward zero, exact, with the dividend's sign. -/
def rem (x y : Number) : Number :=
  if x.isNaN then x.quiet
  else if y.isNaN then y.quiet
  else if x.isInfinite || y.isZero then madeNaN
  else if y.isInfinite then x
  else
    let e := min x.exponent y.exponent
    let r := (x.significand * Nat.pow 2 (x.exponent - e).toNat) %
      (y.significand * Nat.pow 2 (y.exponent - e).toNat)
    ofRatio x.isNegative (r * Nat.pow 2 e.toNat) (Nat.pow 2 (-e).toNat)

def sqrt : Number → Number := liftUnary Float.sqrt
def sin : Number → Number := liftUnary Float.sin
def cos : Number → Number := liftUnary Float.cos
def tan : Number → Number := liftUnary Float.tan

/-- One. -/
def one : Number := ofNat 1

/-- Power. A quiet NaN to the power of zero, and one to the power of a quiet NaN, are one;
other powers with a NaN are that NaN, the base first. The sign of a base that is a NaN goes
by the rule of signs: it is lost where the exponent is an odd integer. -/
def pow (x y : Number) : Number :=
  if x.isNaN then
    if y.isZero && !x.isSignaling then one
    else if y.isOdd then x.quiet.abs
    else x.quiet
  else if y.isNaN then
    if x == one && !y.isSignaling then one else y.quiet
  else ofFloat (Float.pow x.toFloat y.toFloat)

end Number

end TaskVm
