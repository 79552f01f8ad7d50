import TaskVm.Number

/-!
# The fewest digits that read back

Every positive number is the middle of the interval of reals that round to it. Among the
decimals in that interval, `shortest` picks the one with the fewest digits, and of those
the one nearest to the number.

The search goes down the decimal grids, coarse to fine, and stops at the first one with a
point in the interval. If any point of a grid is in the interval then one of the number's
two neighbours on that grid is, so only those two are looked at. The last grid holds the
number itself, so the search always finds something.
-/

namespace TaskVm

/-- Which of two equally near decimals is taken. -/
inductive Tie where
  | up
  | even
deriving DecidableEq

/-- The decimal `digits · 10 ^ exponent`. -/
structure Decimal where
  digits : Nat
  exponent : Int
deriving DecidableEq

namespace Number

/-- How `d · 10 ^ k` compares with `a · 2 ^ e`: the two sides over a common denominator. -/
def decimalSide (d : Nat) (k e : Int) : Nat := d * Nat.pow 10 k.toNat * Nat.pow 2 (-e).toNat

/-- The other side of `decimalSide`. -/
def binarySide (a : Nat) (k e : Int) : Nat := a * Nat.pow 2 e.toNat * Nat.pow 10 (-k).toNat

/-- Four times the significand less the distance to the interval's lower end: half a unit,
or a quarter where the number below is half as far away as the number above. -/
def lowerEnd (x : Number) : Nat :=
  4 * x.significand - if x.significand = leadingBit ∧ -1074 < x.exponent then 1 else 2

/-- Four times the significand and the distance to the interval's upper end. -/
def upperEnd (x : Number) : Nat := 4 * x.significand + 2

/-- The decimal rounds to the number. The ends belong to the interval when the
significand is even, because ties are rounded to even. -/
def readsBack (x : Number) (d : Nat) (k : Int) : Bool :=
  let e := x.exponent - 2
  let v := decimalSide d k e
  let lo := binarySide x.lowerEnd k e
  let hi := binarySide x.upperEnd k e
  if x.significand % 2 = 0 then lo ≤ v && v ≤ hi else lo < v && v < hi

/-- The number's neighbour below on the grid of the multiples of `10 ^ k`. -/
def below (x : Number) (k : Int) : Nat :=
  let e := x.exponent - 2
  binarySide (4 * x.significand) k e / decimalSide 1 k e

/-- The nearer of the two neighbours `d` and `d + 1` on a grid. -/
def nearer (tie : Tie) (x : Number) (d : Nat) (k : Int) : Nat :=
  let e := x.exponent - 2
  match compare (binarySide (8 * x.significand) k e) (decimalSide (2 * d + 1) k e) with
  | .lt => d
  | .gt => d + 1
  | .eq =>
    match tie with
    | .up => d + 1
    | .even => if d % 2 = 0 then d else d + 1

/-- The number's decimal on one grid, if that grid has one. -/
def onGrid? (tie : Tie) (x : Number) (k : Int) : Option Nat :=
  let d := x.below k
  match d != 0 && x.readsBack d k, x.readsBack (d + 1) k with
  | true, true => some (x.nearer tie d k)
  | true, false => some d
  | false, true => some (d + 1)
  | false, false => none

/-- The first of the grids `k + n, …, k + 1, k` that has a decimal for the number. -/
def firstGrid (tie : Tie) (x : Number) (k : Int) : Nat → Decimal
  | 0 => ⟨x.below k, k⟩
  | n + 1 =>
    match x.onGrid? tie (k + (n + 1)) with
    | some d => ⟨d, k + (n + 1)⟩
    | none => firstGrid tie x k n

/-- A power of ten above the number: the logarithm of 2 to base 10 is below 30103/100000. -/
def gridAbove (x : Number) : Int :=
  ((x.significand.log2 : Int) + x.exponent + 1) * 30103 / 100000 + 2

/-- The shortest decimal of a finite number's magnitude. -/
def shortest (tie : Tie) (x : Number) : Decimal :=
  if x.significand = 0 then ⟨0, 0⟩
  else
    let k := min x.exponent 0
    firstGrid tie x k (x.gridAbove - k).toNat

end Number

end TaskVm
