import TaskVm.Number.Shortest

/-!
# The texts of a number

One shortest decimal, three ways of writing it down. A `Number.Style` says where the
positional notation ends and how the exponent looks; `plain`, `exact` and `json` are the
styles the machine's outputs use.
-/

namespace TaskVm.Number

/-- How the digits of a decimal are laid out. -/
structure Style where
  /-- Which of two equally near decimals is written. -/
  tie : Tie
  /-- The exponents of the first digit that are written positionally, the upper bound left
  out; without bounds all are. -/
  positional : Option (Int × Int)
  /-- An integer in positional notation gets a `.0`. -/
  pointZero : Bool
  /-- A positive exponent gets a plus sign. -/
  plusSign : Bool

/-- Always positional, an integer without a point. -/
def Style.plain : Style := ⟨.up, none, false, false⟩

/-- Always recognisable as a fraction; scientific from 10^16 on and below 10^-4. -/
def Style.exact : Style := ⟨.up, some (-4, 16), true, false⟩

/-- The style of JSON text: positional down to 10^-5, ties to even, exponents signed. -/
def Style.json : Style := ⟨.even, some (-5, 16), true, true⟩

/-- A run of zeros. -/
def zeros (n : Nat) : String := String.ofList (List.replicate n '0')

/-- The digits with the point after the first `point` of them. -/
def positionalText (pointZero : Bool) (digits : List Char) (point : Int) : String :=
  if point ≤ 0 then "0." ++ zeros (-point).toNat ++ String.ofList digits
  else if digits.length ≤ point.toNat then
    String.ofList digits ++ zeros (point.toNat - digits.length) ++ if pointZero then ".0" else ""
  else String.ofList (digits.take point.toNat) ++ "." ++ String.ofList (digits.drop point.toNat)

/-- One digit, the point, the others, and the exponent of the first digit. -/
def scientificText (plusSign : Bool) (digits : List Char) (exponent : Int) : String :=
  let rest := digits.drop 1
  let fraction := if rest.isEmpty then "" else "." ++ String.ofList rest
  let sign := if exponent < 0 then "-" else if plusSign then "+" else ""
  String.ofList (digits.take 1) ++ fraction ++ "e" ++ sign ++ toString exponent.natAbs

/-- The text of a decimal. -/
def Style.decimal (style : Style) (d : Decimal) : String :=
  let digits := (toString d.digits).toList
  let exponent := d.exponent + digits.length - 1
  let inside := match style.positional with
    | none => true
    | some (lo, hi) => lo ≤ exponent && exponent < hi
  if inside then positionalText style.pointZero digits (exponent + 1)
  else scientificText style.plusSign digits exponent

/-- The text of a number in a style. Zero is written positionally. -/
def text (style : Style) (x : Number) : String :=
  if x.isNaN then "NaN"
  else
    let sign := if x.isNegative then "-" else ""
    let body :=
      if x.isInfinite then "inf"
      else if x.isZero then if style.pointZero then "0.0" else "0"
      else style.decimal (x.shortest style.tie)
    sign ++ body

/-- The canonical text of a number: an integer below 10^15 is written as an integer, and
then zero has no sign. -/
def display (x : Number) : String :=
  if x.isIntegral && x.floorMagnitude < 1000000000000000 then
    match x.truncate? with
    | some n => toString n
    | none => ""
  else x.text .plain

end TaskVm.Number
