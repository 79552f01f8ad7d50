import TaskVm.Number

/-!
# Decimals as numbers

From a decimal `significand · 10 ^ exponent` to the nearest number, in exact arithmetic. A
decimal that is too large for a number has none.
-/

namespace TaskVm.Number

/-- `± significand · 10 ^ exponent` to the nearest number. The exponent is not raised where
the outcome is certain without it. -/
def ofDecimal? (negative : Bool) (significand : Nat) (exponent : Int) : Option Number :=
  let size : Int := (toString significand).length + exponent
  if significand = 0 || size < -400 then some (.zero negative)
  else if 400 < size then none
  else
    let x := ofRatio negative (significand * Nat.pow 10 exponent.toNat)
      (Nat.pow 10 (-exponent).toNat)
    if x.isFinite then some x else none

end TaskVm.Number
