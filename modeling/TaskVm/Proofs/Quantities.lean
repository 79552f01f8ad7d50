import TaskVm.Proofs.Rounding
import Mathlib.Algebra.Order.Floor.Semifield
import Mathlib.Data.Rat.Floor

/-!
# Numbers as quantities

A finite number is a rational, and it is a quantity that is ordered, cut off, added and counted with
as rationals are, as long as nothing has to be rounded. Integers up to `2 ^ 53` never have to be. An
infinity takes its place in the order as if it were the next number behind the finite ones.
-/

namespace TaskVm.Number

variable {x y : Number} {negative : Bool}

/-- The quantity that a number is. -/
def value (x : Number) : ℚ := if x.isNegative then -x.size else x.size

/-- The integer part of a rational, toward zero. -/
def towardZero (q : ℚ) : Int := if q < 0 then ⌈q⌉ else ⌊q⌋

/-! ## Numbers from their parts -/

theorem ofParts_parts (negative : Bool) {m : Nat} (hm : m < signBit) :
    (ofParts negative m).isNegative = negative ∧ (ofParts negative m).magnitude = m := by
  simp only [signBit] at hm
  have hbits : (ofParts negative m).bits.toNat = m + if negative then signBit else 0 := by
    simp only [ofParts, signBit, UInt64.toNat_ofNat']
    split <;> omega
  rw [isNegative, magnitude, hbits]
  cases negative <;> simp [signBit] <;> omega

theorem infinityMagnitude_lt : infinityMagnitude < signBit := by decide

theorem isNaN_eq_false : x.isNaN = false ↔ x.magnitude ≤ infinityMagnitude := by
  rw [isNaN, decide_eq_false_iff_not, not_lt]

theorem not_isNaN_of_isFinite (hx : x.isFinite = true) : x.isNaN = false :=
  isNaN_eq_false.mpr (of_decide_eq_true hx).le

/-- Rounding makes no NaN, and leaves the sign as it is. -/
theorem ofRatio_parts (negative : Bool) (num den : Nat) :
    (ofRatio negative num den).isNegative = negative ∧
      (ofRatio negative num den).isNaN = false := by
  rw [isNaN_eq_false]
  unfold ofRatio
  split
  · obtain ⟨hsign, hmagnitude⟩ := ofParts_parts negative (m := 0) (by decide)
    exact ⟨hsign, hmagnitude.trans_le (Nat.zero_le _)⟩
  · obtain ⟨hsign, hmagnitude⟩ := ofParts_parts negative
      ((min_le_right _ _).trans_lt infinityMagnitude_lt)
    exact ⟨hsign, hmagnitude.trans_le (min_le_right _ _)⟩

theorem size_zero (negative : Bool) : (zero negative).size = 0 := by
  obtain ⟨-, hmagnitude⟩ := ofParts_parts negative (m := 0) (by decide)
  rw [size, significand, zero, hmagnitude]
  simp

theorem value_zero : (zero negative).value = 0 := by
  rw [value, size_zero, neg_zero, ite_self]

theorem isFinite_zero : (zero negative).isFinite = true := by
  obtain ⟨-, hmagnitude⟩ := ofParts_parts negative (m := 0) (by decide)
  rw [isFinite, zero, hmagnitude]
  decide

/-! ## Integers -/

/-- Each significand is there with each exponent. -/
theorem exists_size (negative : Bool) {m : Nat} {e : Int} (hm : 2 ^ 52 ≤ m) (hm' : m < 2 ^ 53)
    (he : -1074 ≤ e) (he' : e < 972) :
    ∃ x : Number, x.isFinite = true ∧ x.isNegative = negative ∧ x.size = m * 2 ^ e := by
  obtain ⟨k, hk⟩ : ∃ k : Nat, e = k - 1074 := ⟨(e + 1074).toNat, by omega⟩
  obtain ⟨hsign, hmagnitude⟩ := ofParts_parts negative
    (m := k * leadingBit + m) (by simp only [signBit, leadingBit]; omega)
  refine ⟨_, ?_, hsign, ?_⟩
  · rw [isFinite, hmagnitude, infinityMagnitude, leadingBit, decide_eq_true_eq]
    omega
  · have hdiv : (k * leadingBit + m) / leadingBit = k + 1 := by
      simp only [leadingBit]
      omega
    have hmod : (k * leadingBit + m) % leadingBit + leadingBit = m := by
      simp only [leadingBit]
      omega
    have hexponent : ((k + 1 : Nat) : Int) - 1075 = e := by omega
    rw [size, significand, exponent, hmagnitude, hdiv, hmod, if_neg k.succ_ne_zero,
      if_neg k.succ_ne_zero, hexponent]

/-- Every integer up to `2 ^ 53` is a number. -/
theorem exists_size_natCast (negative : Bool) {n : Nat} (hpos : 0 < n) (hn : n ≤ 2 ^ 53) :
    ∃ x : Number, x.isFinite = true ∧ x.isNegative = negative ∧ x.size = n := by
  rcases Nat.lt_or_eq_of_le hn with hlt | rfl
  · have hlog : n.log2 ≤ 52 := by
      have := Nat.log2_lt hpos.ne' |>.mpr hlt
      omega
    have hlow := Nat.log2_self_le hpos.ne'
    have hhigh := Nat.lt_log2_self (n := n)
    have hsum : n.log2 + (52 - n.log2) = 52 := by omega
    obtain ⟨x, hfinite, hsign, hsize⟩ := exists_size negative
      (m := n * 2 ^ (52 - n.log2)) (e := -((52 - n.log2 : Nat) : Int))
      (by
        calc 2 ^ 52 = 2 ^ n.log2 * 2 ^ (52 - n.log2) := by rw [← pow_add, hsum]
          _ ≤ n * 2 ^ (52 - n.log2) := Nat.mul_le_mul_right _ hlow)
      (by
        calc n * 2 ^ (52 - n.log2) < 2 ^ (n.log2 + 1) * 2 ^ (52 - n.log2) :=
            Nat.mul_lt_mul_of_pos_right hhigh (by positivity)
          _ = 2 ^ 53 := by rw [← pow_add, show n.log2 + 1 + (52 - n.log2) = 53 by omega])
      (by omega) (by omega)
    refine ⟨x, hfinite, hsign, ?_⟩
    rw [hsize, zpow_neg, zpow_natCast]
    push_cast
    field_simp
  · obtain ⟨x, hfinite, hsign, hsize⟩ := exists_size negative (m := 2 ^ 52) (e := 1)
      le_rfl (by decide) (by decide) (by decide)
    exact ⟨x, hfinite, hsign, by rw [hsize]; norm_num⟩

/-- An integer up to `2 ^ 53` is not rounded. -/
theorem ofRatio_natCast (negative : Bool) {num den n : Nat} (hden : 0 < den)
    (hnum : num = n * den) (hn : n ≤ 2 ^ 53) :
    (ofRatio negative num den).isFinite = true ∧
      (ofRatio negative num den).value = if negative then -(n : ℚ) else n := by
  rcases Nat.eq_zero_or_pos n with rfl | hpos
  · rw [zero_mul] at hnum
    subst hnum
    rw [ofRatio, if_pos rfl, value_zero, Nat.cast_zero, neg_zero, ite_self]
    exact ⟨isFinite_zero, rfl⟩
  · obtain ⟨x, hfinite, rfl, hsize⟩ := exists_size_natCast negative hpos hn
    have hcovers : x.Covers (num / den) := by
      have hquotient : (num / den : ℚ) = n := by
        rw [hnum]
        push_cast
        exact mul_div_cancel_right₀ _ (Nat.cast_ne_zero.mpr hden.ne')
      rw [hquotient, ← hsize]
      exact x.covers_size
    rw [ofRatio_eq hfinite (hnum ▸ Nat.mul_pos hpos hden) hden hcovers]
    exact ⟨hfinite, by rw [value, hsize]⟩

theorem value_ofNat {n : Nat} (hn : n ≤ 2 ^ 53) :
    (ofNat n).isFinite = true ∧ (ofNat n).value = n :=
  ofRatio_natCast false one_pos (mul_one n).symm hn

/-! ## Order -/

theorem size_nonneg (x : Number) : 0 ≤ x.size :=
  mul_nonneg (Nat.cast_nonneg _) (two_zpow_pos _).le

/-- Magnitudes are ordered as what they stand for. -/
theorem size_lt_size (h : x.magnitude < y.magnitude) : x.size < y.size := by
  have hx := x.magnitude_eq
  have hy := y.magnitude_eq
  have hlt := x.significand_lt
  have hlt' := y.significand_lt
  have hge := x.exponent_ge
  have hge' := y.exponent_ge
  simp only [leadingBit] at hx hy
  rcases lt_trichotomy x.exponent y.exponent with he | he | he
  · -- The smaller exponent has at most the last place of the next significand.
    have hleading : 2 ^ 52 ≤ y.significand := le_significand (by omega)
    have hplace : (2 : ℚ) * 2 ^ x.exponent ≤ 2 ^ y.exponent := by
      rw [mul_comm, ← zpow_add_one₀ (by norm_num)]
      exact zpow_le_zpow_right₀ (by norm_num) (by omega)
    calc x.size < 2 ^ 53 * 2 ^ x.exponent :=
          mul_lt_mul_of_pos_right (by exact_mod_cast hlt) (two_zpow_pos _)
      _ = 2 ^ 52 * (2 * 2 ^ x.exponent) := by ring
      _ ≤ y.significand * 2 ^ y.exponent :=
          mul_le_mul (by exact_mod_cast hleading) hplace (by positivity) (by positivity)
  · rw [size, size, he]
    rw [he] at hx
    exact mul_lt_mul_of_pos_right (by exact_mod_cast (by omega)) (two_zpow_pos _)
  · have hleading : 2 ^ 52 ≤ x.significand := le_significand (by omega)
    omega

theorem size_congr (h : x.magnitude = y.magnitude) : x.size = y.size := by
  rw [size, size, significand, significand, exponent, exponent, h]

theorem size_lt_iff : x.size < y.size ↔ x.magnitude < y.magnitude := by
  refine ⟨fun hlt => ?_, size_lt_size⟩
  rcases lt_trichotomy x.magnitude y.magnitude with h | h | h
  · exact h
  · exact absurd (size_congr h) hlt.ne
  · exact absurd (size_lt_size h) hlt.asymm

theorem size_pos : 0 < x.size ↔ 0 < x.magnitude := by
  obtain ⟨-, hmagnitude⟩ := ofParts_parts false (m := 0) (by decide)
  have hzero : (zero false).magnitude = 0 := hmagnitude
  rw [← size_zero false, size_lt_iff, hzero]

/-- The integers that order the numbers order them as the quantities that they are. -/
theorem orderKey_lt_iff : x.orderKey < y.orderKey ↔ x.value < y.value := by
  have hx := x.size_nonneg
  have hy := y.size_nonneg
  have hxy := size_lt_iff (x := x) (y := y)
  have hyx := size_lt_iff (x := y) (y := x)
  have hxpos := size_pos (x := x)
  have hypos := size_pos (x := y)
  unfold orderKey value
  cases x.isNegative <;> cases y.isNegative <;> simp only [Bool.false_eq_true, if_true, if_false]
  · rw [hxy, Nat.cast_lt]
  · constructor
    · intro h
      omega
    · intro h
      linarith
  · constructor
    · intro h
      rcases Nat.eq_zero_or_pos x.magnitude with hzero | hpos
      · have hlt := hypos.mpr (by omega)
        linarith
      · have hlt := hxpos.mpr hpos
        linarith
    · intro h
      have hor : 0 < x.size ∨ 0 < y.size := by
        by_contra hnot
        push Not at hnot
        linarith
      have := hor.imp hxpos.mp hypos.mp
      omega
  · rw [neg_lt_neg_iff, neg_lt_neg_iff, hyx, Nat.cast_lt]

/-- **Numbers are ordered as the quantities that they are.** -/
theorem less_iff (hx : x.isNaN = false) (hy : y.isNaN = false) :
    x.less y = true ↔ x.value < y.value := by
  rw [← orderKey_lt_iff, less, compare?, hx, hy]
  simp [compare_lt_iff_lt]

/-- No number is less than a NaN, or more. -/
theorem less_of_isNaN (h : x.isNaN = true ∨ y.isNaN = true) : x.less y = false := by
  have hor : (x.isNaN || y.isNaN) = true := Bool.or_eq_true_iff.mpr h
  rw [less, compare?, if_pos hor]
  rfl

/-! ## Integer parts -/

theorem isNegative_of_value_neg (hx : x.value < 0) : x.isNegative = true := by
  by_contra hsign
  rw [value, if_neg hsign] at hx
  exact absurd hx x.size_nonneg.not_gt

theorem floorMagnitude_eq (x : Number) : x.floorMagnitude = ⌊x.size⌋₊ := by
  have hsize : x.size = (x.significand * Nat.pow 2 x.exponent.toNat : Nat) /
      (Nat.pow 2 (-x.exponent).toNat : Nat) := by
    have hpow := zpow_mul_pow (b := 2) (by norm_num) x.exponent
    rw [size, eq_div_iff (by simp)]
    push_cast [Nat.pow_eq]
    rw [← hpow]
    ring
  rw [hsize, Nat.floor_div_eq_div, floorMagnitude]

theorem towardZero_value (x : Number) :
    towardZero x.value = if x.isNegative then -(x.floorMagnitude : Int) else x.floorMagnitude := by
  have hfloor : (x.floorMagnitude : Int) = ⌊x.size⌋ := by
    rw [floorMagnitude_eq]
    exact Int.natCast_floor_eq_floor x.size_nonneg
  rw [hfloor, towardZero, value]
  have hsize := x.size_nonneg
  split
  · split
    · exact Int.ceil_neg
    · have hzero : x.size = 0 := by linarith
      rw [hzero]
      simp
  · rw [if_neg (by linarith)]

theorem truncate?_eq (hx : x.isFinite = true) : x.truncate? = some (towardZero x.value) := by
  rw [truncate?, if_pos hx, towardZero_value]

theorem isIntegral_of_exponent_pos (hx : x.isFinite = true) (he : 0 ≤ x.exponent) :
    x.isIntegral = true := by
  have hone : (-x.exponent).toNat = 0 := by omega
  rw [isIntegral, hx, hone, show Nat.pow 2 0 = 1 from rfl, Nat.mod_one]
  rfl

/-- A number has no fraction if it is an integer. -/
theorem isIntegral_iff : x.isIntegral = true ↔ x.isFinite = true ∧ ∃ i : Int, x.value = i := by
  constructor
  · intro hx
    refine ⟨isFinite_of_isIntegral hx, towardZero x.value, ?_⟩
    rw [towardZero_value, value, size_of_isIntegral hx]
    split <;> push_cast <;> rfl
  · rintro ⟨hfinite, i, hi⟩
    have hsize : x.size = (i.natAbs : ℚ) := by
      rw [Nat.cast_natAbs, Int.cast_abs, ← hi, value]
      split
      · rw [abs_neg, abs_of_nonneg x.size_nonneg]
      · rw [abs_of_nonneg x.size_nonneg]
    have hproduct : x.significand * 2 ^ x.exponent.toNat =
        i.natAbs * 2 ^ (-x.exponent).toNat := by
      have hpow := zpow_mul_pow (b := 2) (by norm_num) x.exponent
      have hcast : (x.significand * 2 ^ x.exponent.toNat : ℚ) =
          i.natAbs * 2 ^ (-x.exponent).toNat := by
        rw [← hsize, size, ← hpow]
        ring
      exact_mod_cast hcast
    rw [isIntegral, hfinite, Nat.pow_eq, Nat.pow_eq, hproduct, Nat.mul_mod_left]
    rfl

/-- **The integer part of a number is a number again.** -/
theorem value_trunc (hx : x.isFinite = true) :
    x.trunc.isFinite = true ∧ x.trunc.value = towardZero x.value := by
  rw [trunc, withIntegerMagnitude, if_pos hx, towardZero_value]
  rcases lt_or_ge 0 x.exponent with he | he
  · -- There is no fraction, so that there is nothing to cut off.
    have hintegral := isIntegral_of_exponent_pos hx he.le
    have hsize := size_of_isIntegral hintegral
    have hpos : 0 < x.floorMagnitude := by
      have hleading := le_significand (x := x) (by omega)
      have hlt : 0 < x.size := mul_pos (by exact_mod_cast (by omega)) (two_zpow_pos _)
      rw [hsize] at hlt
      exact_mod_cast hlt
    have hcovers : x.Covers (x.floorMagnitude / (1 : Nat)) := by
      rw [Nat.cast_one, div_one, ← hsize]
      exact x.covers_size
    rw [ofRatio_eq hx hpos one_pos hcovers, value, hsize]
    refine ⟨hx, ?_⟩
    split <;> push_cast <;> rfl
  · have hle : x.floorMagnitude ≤ 2 ^ 53 := by
      have hzero : x.exponent.toNat = 0 := by omega
      rw [floorMagnitude, hzero]
      refine (Nat.div_le_self _ _).trans ?_
      rw [Nat.pow_eq, pow_zero, mul_one]
      exact x.significand_lt.le
    obtain ⟨hfinite, hvalue⟩ := ofRatio_natCast x.isNegative one_pos (mul_one _).symm hle
    rw [hvalue]
    refine ⟨hfinite, ?_⟩
    split <;> push_cast <;> rfl

/-- Cutting off makes no NaN, and keeps an infinity. -/
theorem trunc_of_not_isFinite (hx : x.isNaN = false) (hnot : x.isFinite = false) :
    x.trunc = x := by
  rw [trunc, withIntegerMagnitude, hnot, hx, if_neg Bool.false_ne_true, if_neg Bool.false_ne_true]

theorem isNaN_trunc (hx : x.isNaN = true) : x.trunc.isNaN = true := by
  have hnot : ¬ x.isFinite = true := fun h => by
    rw [not_isNaN_of_isFinite h] at hx
    cases hx
  have hnan := of_decide_eq_true hx
  rw [trunc, withIntegerMagnitude, if_neg hnot, if_pos hx, quiet]
  split
  · -- The quiet bit is not set, so that nothing is carried into the sign.
    rename_i hbit
    refine decide_eq_true ?_
    simp only [magnitude, infinityMagnitude, leadingBit, quietBit, signBit,
      UInt64.toNat_ofNat'] at hbit hnan ⊢
    have hbits := x.bits.toNat_lt
    omega
  · exact hx

/-! ## Sums -/

/-- A number in units of a power of two that is not above its last place. -/
theorem inUnits_mul {e : Int} (he : e ≤ x.exponent) : x.inUnits e * (2 : ℚ) ^ e = x.value := by
  have hsize : ((x.significand * Nat.pow 2 (x.exponent - e).toNat : Nat) : ℚ) * 2 ^ e =
      x.size := by
    push_cast [Nat.pow_eq]
    rw [size, ← zpow_natCast, Int.toNat_of_nonneg (by omega), mul_assoc, ← zpow_add₀ (by norm_num)]
    congr 2
    omega
  unfold inUnits value
  split
  · rw [Int.cast_neg, neg_mul, Int.cast_natCast, hsize]
  · rw [Int.cast_natCast, hsize]

theorem not_isInfinite_of_isFinite (hx : x.isFinite = true) : x.isInfinite = false :=
  decide_eq_false (of_decide_eq_true hx).ne

/-- The sum of two finite numbers is rounded from the exact one. -/
theorem sum_eq (hx : x.isFinite = true) (hy : y.isFinite = true) :
    ∃ (negative : Bool) (num den : Nat), x.sum y = ofRatio negative num den ∧ 0 < den ∧
      (num : ℚ) = |x.value + y.value| * den ∧ (x.value + y.value < 0 → negative = true) ∧
      (0 < x.value + y.value → negative = false) := by
  obtain ⟨e, he⟩ : ∃ e, min x.exponent y.exponent = e := ⟨_, rfl⟩
  obtain ⟨units, hunits⟩ : ∃ units, x.inUnits e + y.inUnits e = units := ⟨_, rfl⟩
  have hexact : x.value + y.value = units * 2 ^ e := by
    rw [← inUnits_mul (x := x) (e := e) (by omega), ← inUnits_mul (x := y) (e := e) (by omega),
      ← add_mul, ← hunits, Int.cast_add]
  have hpos := two_zpow_pos e
  refine ⟨if units = 0 then x.isNegative && y.isNegative else units < 0,
    units.natAbs * Nat.pow 2 e.toNat, Nat.pow 2 (-e).toNat, ?_, Nat.pow_pos (by norm_num),
    ?_, ?_, ?_⟩
  · rw [sum, not_isInfinite_of_isFinite hx, not_isInfinite_of_isFinite hy,
      if_neg Bool.false_ne_true, if_neg Bool.false_ne_true]
    simp only [he, hunits]
  · have hpow := zpow_mul_pow (b := 2) (by norm_num) e
    rw [hexact, abs_mul, abs_of_pos hpos]
    push_cast [Nat.pow_eq, Nat.cast_natAbs]
    rw [← hpow]
    ring
  · intro hneg
    have hlt : units < 0 := by
      by_contra hge
      have : (0 : ℚ) ≤ units := by exact_mod_cast not_lt.mp hge
      have := mul_nonneg this hpos.le
      linarith
    rw [if_neg hlt.ne, decide_eq_true hlt]
  · intro hneg
    have hlt : 0 < units := by
      by_contra hge
      have : (units : ℚ) ≤ 0 := by exact_mod_cast not_lt.mp hge
      have := mul_nonpos_of_nonpos_of_nonneg this hpos.le
      linarith
    rw [if_neg hlt.ne', decide_eq_false hlt.not_gt]

/-- What is not finite is beyond all integers that are not rounded. -/
theorem lt_size_of_not_isFinite (hx : x.isFinite = false) : 2 ^ 53 < x.size := by
  obtain ⟨hfinite, hvalue⟩ := value_ofNat (n := 2 ^ 53) le_rfl
  have hsize : (ofNat (2 ^ 53)).size = 2 ^ 53 := by
    have hsign : (ofNat (2 ^ 53)).isNegative = false := (ofRatio_parts false _ _).1
    rw [value, hsign, if_neg Bool.false_ne_true] at hvalue
    exact_mod_cast hvalue
  rw [← hsize]
  exact size_lt_size ((of_decide_eq_true hfinite).trans_le (not_lt.mp (of_decide_eq_false hx)))

/-- What is not finite stands in the order as a large integer. -/
theorem value_of_not_isFinite (hx : x.isNaN = false) (hnot : x.isFinite = false) :
    ∃ i : Int, x.value = i ∧ if x.isNegative then i < -2 ^ 53 else 2 ^ 53 < i := by
  have hmagnitude := (isNaN_eq_false.mp hx).antisymm (not_lt.mp (of_decide_eq_false hnot))
  have hexponent : x.exponent = 972 := by
    rw [exponent, hmagnitude]
    rfl
  have hsize : x.size = (x.significand * 2 ^ 972 : Nat) := by
    rw [size, hexponent, Nat.cast_mul, Nat.cast_pow]
    rfl
  have hlt := lt_size_of_not_isFinite hnot
  rw [hsize] at hlt
  have hlt' : 2 ^ 53 < x.significand * 2 ^ 972 := by exact_mod_cast hlt
  generalize x.significand * 2 ^ 972 = n at hsize hlt'
  rw [value, hsize]
  split
  · exact ⟨-n, by push_cast; rfl, by omega⟩
  · exact ⟨n, rfl, by omega⟩

theorem isFinite_of_value {n : Nat} (hx : x.value = n) (hn : n ≤ 2 ^ 53) :
    x.isFinite = true := by
  by_contra hnot
  have hlt := lt_size_of_not_isFinite (eq_false_of_ne_true hnot)
  have hcast : (n : ℚ) ≤ 2 ^ 53 := by exact_mod_cast hn
  rw [value] at hx
  split at hx <;> linarith [Nat.cast_nonneg (α := ℚ) n]

theorem isInfinite_of_not_isFinite (hx : x.isNaN = false) (hnot : x.isFinite = false) :
    x.isInfinite = true :=
  decide_eq_true ((isNaN_eq_false.mp hx).antisymm (not_lt.mp (of_decide_eq_false hnot)))

/-- A negative integer and a length have an exact sum, or it is negative again. -/
theorem add_ofNat {i : Int} {len : Nat} (hx : x.isNaN = false) (hi : x.value = i) (hneg : i < 0)
    (hlen : len ≤ 2 ^ 53) :
    (x.add (ofNat len)).isNaN = false ∧
      (0 ≤ i + len → (x.add (ofNat len)).value = (i + len : Int)) ∧
      (i + len < 0 → (x.add (ofNat len)).isNegative = true) := by
  obtain ⟨hfinite, hvalue⟩ := value_ofNat hlen
  have hadd : x.add (ofNat len) = x.sum (ofNat len) := by
    rw [add, liftExact, hx, not_isNaN_of_isFinite hfinite, if_neg Bool.false_ne_true,
      if_neg Bool.false_ne_true]
  have hsign : x.isNegative = true :=
    isNegative_of_value_neg (by rw [hi]; exact_mod_cast hneg)
  rw [hadd]
  cases hcase : x.isFinite with
  | false =>
    -- An infinity stays what it is.
    have hsum : x.sum (ofNat len) = x := by
      rw [sum, if_pos (isInfinite_of_not_isFinite hx hcase), not_isInfinite_of_isFinite hfinite,
        Bool.false_and, if_neg Bool.false_ne_true]
    have hbeyond := lt_size_of_not_isFinite hcase
    rw [hsum]
    refine ⟨hx, fun hge => ?_, fun _ => hsign⟩
    rw [value, if_pos hsign] at hi
    have hge' : (0 : ℚ) ≤ i + len := by exact_mod_cast hge
    have hcast : (len : ℚ) ≤ 2 ^ 53 := by exact_mod_cast hlen
    linarith
  | true =>
    obtain ⟨negative, num, den, hsum, hden, hnum, hbelow, habove⟩ := sum_eq hcase hfinite
    have hexact : x.value + (ofNat len).value = (i + len : Int) := by
      rw [hi, hvalue, Int.cast_add, Int.cast_natCast]
    rw [hexact] at hnum hbelow habove
    obtain ⟨hsigned, hnan⟩ := ofRatio_parts negative num den
    rw [hsum]
    refine ⟨hnan, fun hge => ?_, fun hlt => hsigned.trans (hbelow (by exact_mod_cast hlt))⟩
    obtain ⟨n, hn⟩ := Int.eq_ofNat_of_zero_le hge
    rw [hn, Int.cast_natCast] at habove hnum ⊢
    have hnum' : num = n * den := by
      rw [abs_of_nonneg (Nat.cast_nonneg n)] at hnum
      exact_mod_cast hnum
    obtain ⟨-, hrounded⟩ := ofRatio_natCast negative hden hnum' (by omega)
    rcases Nat.eq_zero_or_pos n with rfl | hpos
    · rw [hrounded, Nat.cast_zero, neg_zero, ite_self]
    · rw [hrounded, habove (by exact_mod_cast hpos), if_neg Bool.false_ne_true]

/-! ## Words -/

/-- The integer part of a NaN counts as zero. -/
theorem toWord_of_isNaN (hx : x.isNaN = true) : x.toWord = 0 := by
  have hnot : ¬ x.isFinite = true := fun h => by
    rw [not_isNaN_of_isFinite h] at hx
    cases hx
  rw [toWord, clampToInt, truncate?, if_neg hnot]
  simp only [hx, if_true]
  rfl

/-- The integer part of a finite number that is not negative, as far as words go. -/
theorem toWord_of_isFinite (hx : x.isFinite = true) :
    x.toWord = (max 0 (min (towardZero x.value) 0xffffffffffffffff)).toNat := by
  rw [toWord, clampToInt, truncate?_eq hx]

/-- An infinity is the least word or the greatest one. -/
theorem toWord_of_not_isFinite (hx : x.isNaN = false) (hnot : x.isFinite = false) :
    x.toWord = if x.isNegative then 0 else 0xffffffffffffffff := by
  rw [toWord, clampToInt, truncate?, hnot, if_neg Bool.false_ne_true, hx]
  cases x.isNegative <;> rfl

theorem towardZero_nonpos {q : ℚ} (hq : q ≤ 0) : towardZero q ≤ 0 := by
  unfold towardZero
  split
  · exact Int.ceil_le.mpr (by exact_mod_cast hq)
  · exact Int.floor_nonpos hq

theorem towardZero_intCast (i : Int) : towardZero (i : ℚ) = i := by
  rw [towardZero, Int.ceil_intCast, Int.floor_intCast, ite_self]

/-- An integer that has been held between zero and a length is that place. -/
theorem toWord_clamp {i : Int} {len : Nat} (hx : x.isNaN = false) (hi : x.value = i)
    (hlen : len ≤ 2 ^ 53) :
    (x.clamp (zero false) (ofNat len)).toWord = (max 0 (min i len)).toNat := by
  obtain ⟨hfinite, hvalue⟩ := value_ofNat hlen
  have hword : ∀ {y : Number} {n : Nat}, y.value = n → n ≤ 2 ^ 53 → y.toWord = n := by
    intro y n hy hn
    have hcast : towardZero (n : ℚ) = n := by exact_mod_cast towardZero_intCast n
    rw [toWord_of_isFinite (isFinite_of_value hy hn), hy, hcast]
    omega
  have hbelow : x.less (zero false) = true ↔ i < 0 := by
    rw [less_iff hx (not_isNaN_of_isFinite isFinite_zero), hi, value_zero]
    exact_mod_cast Iff.rfl
  have habove : (ofNat len).less x = true ↔ (len : Int) < i := by
    rw [less_iff (not_isNaN_of_isFinite hfinite) hx, hi, hvalue]
    exact_mod_cast Iff.rfl
  unfold clamp
  simp only [hbelow, habove]
  split
  · rw [hword (n := 0) (by rw [value_zero, Nat.cast_zero]) (Nat.zero_le _)]
    omega
  · split
    · rw [hword hvalue hlen]
      omega
    · obtain ⟨n, rfl⟩ := Int.eq_ofNat_of_zero_le (by omega : 0 ≤ i)
      rw [hword (by rw [hi, Int.cast_natCast]) (by omega)]
      omega

/-- What is not above zero is held at zero, an integer or not. -/
theorem toWord_clamp_of_isNegative {len : Nat} (hx : x.isNaN = false)
    (hsign : x.isNegative = true) (hlen : len ≤ 2 ^ 53) :
    (x.clamp (zero false) (ofNat len)).toWord = 0 := by
  have hle : x.value ≤ 0 := by
    rw [value, if_pos hsign]
    exact neg_nonpos.mpr x.size_nonneg
  rcases hle.lt_or_eq with hlt | heq
  · have hless : x.less (zero false) = true := by
      rwa [less_iff hx (not_isNaN_of_isFinite isFinite_zero), value_zero]
    rw [clamp, if_pos hless, toWord_of_isFinite isFinite_zero, value_zero, towardZero]
    rfl
  · rw [toWord_clamp hx (i := 0) (by rw [heq, Int.cast_zero]) hlen]
    omega

end TaskVm.Number
