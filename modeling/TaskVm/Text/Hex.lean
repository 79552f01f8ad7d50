/-!
# Base 16

Numbers and bytes in digits to base 16. Letters are written in lower case and read in
either.
-/

namespace TaskVm.Text

/-- The value of a digit to base 16. -/
def hexValue? (c : Char) : Option Nat :=
  if '0' ≤ c ∧ c ≤ '9' then some (c.toNat - '0'.toNat)
  else if 'a' ≤ c ∧ c ≤ 'f' then some (c.toNat - 'a'.toNat + 10)
  else if 'A' ≤ c ∧ c ≤ 'F' then some (c.toNat - 'A'.toNat + 10)
  else none

/-- The digits of a number, as many as it has. -/
def hexDigits (n : Nat) : String := String.ofList (Nat.toDigits 16 n)

/-- The last `width` digits of a number, zeros in front. -/
def hexFixed : (width : Nat) → Nat → List Char
  | 0, _ => []
  | width + 1, n => hexFixed width (n / 16) ++ [Nat.digitChar (n % 16)]

/-- The number that some digits spell. -/
def hexNat? (digits : List Char) : Option Nat :=
  digits.foldl (fun n c => do some (16 * (← n) + (← hexValue? c))) (some 0)

/-- Bytes, two digits each. -/
def hexOfBytes (bytes : List UInt8) : String :=
  String.ofList (bytes.flatMap fun b => hexFixed 2 b.toNat)

/-- The bytes that pairs of digits spell. -/
def bytesOfHex? : List Char → Option (List UInt8)
  | [] => some []
  | [_] => none
  | a :: b :: rest => do
    let byte ← hexNat? [a, b]
    let bytes ← bytesOfHex? rest
    some (UInt8.ofNat byte :: bytes)

end TaskVm.Text
