import TaskVm.Number

/-!
# Numbers with two places

The exact value of a number rounded to hundredths, a half to the even neighbour, and the
columns of a report.
-/

namespace TaskVm

/-- Blanks in front of a text up to a width. -/
def padLeft (width : Nat) (s : String) : String :=
  String.ofList (List.replicate (width - s.length) ' ') ++ s

/-- Blanks behind a text up to a width. -/
def padRight (width : Nat) (s : String) : String :=
  s ++ String.ofList (List.replicate (width - s.length) ' ')

/-- Zeros between the sign of an integer and its digits up to a width. -/
def padZeros (width : Nat) (n : Int) : String :=
  let digits := toString n.natAbs
  let sign := if n < 0 then "-" else ""
  sign ++ String.ofList (List.replicate (width - sign.length - digits.length) '0') ++ digits

namespace Number

/-- A number that is not negative with two decimal places. -/
def hundredths (x : Number) : String :=
  if x.isNaN then "NaN"
  else if x.isInfinite then "inf"
  else
    let n := roundDiv (100 * x.significand * Nat.pow 2 x.exponent.toNat)
      (Nat.pow 2 (-x.exponent).toNat)
    toString (n / 100) ++ "." ++ (if n % 100 < 10 then "0" else "") ++ toString (n % 100)

end Number

end TaskVm
