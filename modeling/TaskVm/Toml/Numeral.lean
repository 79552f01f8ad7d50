import TaskVm.Number.Decimal
import TaskVm.Text.Hex
import TaskVm.Toml

/-!
# Numbers of TOML

Integers of 64 bits to base 10, 16, 8 or 2, and floating point numbers. An underscore may
stand between two digits.
-/

namespace TaskVm.Toml

/-- The digits after the first one, underscores between them left out. -/
def moreDigits (isDigit : Char → Bool) : List Char → Option (List Char × List Char)
  | [] => some ([], [])
  | ['_'] => none
  | '_' :: c :: rest =>
    if isDigit c then (moreDigits isDigit rest).map fun r => (c :: r.1, r.2) else none
  | c :: rest =>
    if isDigit c then (moreDigits isDigit rest).map fun r => (c :: r.1, r.2)
    else some ([], c :: rest)

/-- One digit or more. -/
def someDigits (isDigit : Char → Bool) : List Char → Option (List Char × List Char)
  | c :: rest =>
    if isDigit c then (moreDigits isDigit rest).map fun r => (c :: r.1, r.2) else none
  | [] => none

/-- The digits of an integer to base 10, which begins with a zero only if it is zero. -/
def wholeDigits : List Char → Option (List Char × List Char)
  | '0' :: rest => some (['0'], rest)
  | cs => someDigits Char.isDigit cs

/-- A digit to a base. -/
def isDigitTo (base : Nat) (c : Char) : Bool :=
  match Text.hexValue? c with
  | some d => d < base
  | none => false

/-- The number that digits to a base spell. -/
def valueTo (base : Nat) (digits : List Char) : Nat :=
  digits.foldl (fun n c => base * n + (Text.hexValue? c).getD 0) 0

/-- An integer that fits. -/
def fits? (n : Int) : Option Toml :=
  if -0x8000000000000000 ≤ n && n < 0x8000000000000000 then some (integer n) else none

/-- An integer whose base has been read. -/
def toBase (base : Nat) (cs : List Char) : Option (Toml × List Char) := do
  let (digits, rest) ← someDigits (isDigitTo base) cs
  let v ← fits? (valueTo base digits)
  some (v, rest)

/-- A sign, if there is one. -/
def sign : List Char → Bool × List Char
  | '-' :: rest => (true, rest)
  | '+' :: rest => (false, rest)
  | cs => (false, cs)

/-- The digits after a point, if there is one. -/
def fraction : List Char → Option (Option (List Char) × List Char)
  | '.' :: rest => (someDigits Char.isDigit rest).map fun r => (some r.1, r.2)
  | cs => some (none, cs)

/-- The exponent, if there is one. -/
def exponent : List Char → Option (Option Int × List Char)
  | c :: rest =>
    if c = 'e' || c = 'E' then
      let (negative, rest) := sign rest
      (someDigits Char.isDigit rest).map fun r =>
        let n : Int := valueTo 10 r.1
        (some (if negative then -n else n), r.2)
    else some (none, c :: rest)
  | [] => some (none, [])

/-- A floating point number. One that is too large is an error, and one that is too far
below zero is an infinity. -/
def floatOf (negative : Bool) (significand : Nat) (exponent : Int) : Option Toml :=
  match Number.ofDecimal? negative significand exponent with
  | some x => some (float x)
  | none => if negative then some (float (.infinity true)) else none

/-- A number to base 10. -/
def decimal (cs : List Char) : Option (Toml × List Char) := do
  let (negative, cs) := sign cs
  match cs with
  | 'i' :: 'n' :: 'f' :: rest => some (float (.infinity negative), rest)
  | 'n' :: 'a' :: 'n' :: rest => some (float .nan, rest)
  | cs =>
    let (whole, rest) ← wholeDigits cs
    let (part, rest) ← fraction rest
    let (power, rest) ← exponent rest
    match part, power with
    | none, none =>
      let n : Int := valueTo 10 whole
      (fits? (if negative then -n else n)).map (·, rest)
    | _, _ =>
      let part := part.getD []
      let v ← floatOf negative (valueTo 10 (whole ++ part)) (power.getD 0 - part.length)
      some (v, rest)

/-- A number. -/
def numeral? : List Char → Option (Toml × List Char)
  | '0' :: 'x' :: rest => toBase 16 rest
  | '0' :: 'o' :: rest => toBase 8 rest
  | '0' :: 'b' :: rest => toBase 2 rest
  | cs => decimal cs

end TaskVm.Toml
