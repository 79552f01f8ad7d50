import TaskVm.Number.Decimal
import TaskVm.Number.Shortest
import Mathlib.Algebra.Order.Field.Power
import Mathlib.Tactic.Linarith
import Mathlib.Tactic.LinearCombination
import Mathlib.Tactic.Positivity
import Mathlib.Tactic.Ring

/-!
# Rounding

A finite number lies in an interval of rationals, and what is in this interval is rounded to the
number. The search for the shortest decimal keeps to the interval, so that the decimal is read back
as the number it was made for. The natural numbers that the search and the rounding compare are two
rationals over a common denominator.
-/

namespace TaskVm.Number

variable {x : Number} {q : ℚ}

/-! ## Finite numbers as rationals -/

/-- What a finite number is, without its sign. -/
def size (x : Number) : ℚ := x.significand * 2 ^ x.exponent

/-- A number is its sign and its magnitude. -/
theorem ofParts_self (x : Number) : ofParts x.isNegative x.magnitude = x := by
  have hbits := x.bits.toNat_lt
  obtain ⟨bits⟩ := x
  have hsum : bits.toNat % signBit + (if signBit ≤ bits.toNat then signBit else 0) =
      bits.toNat := by
    simp only [signBit] at hbits ⊢
    split <;> omega
  simp only [ofParts, isNegative, magnitude, decide_eq_true_eq, hsum, UInt64.ofNat_toNat]

theorem exponent_ge (x : Number) : -1074 ≤ x.exponent := by
  simp only [exponent, leadingBit]
  split <;> omega

theorem significand_lt (x : Number) : x.significand < 2 ^ 53 := by
  simp only [significand, leadingBit]
  split <;> omega

/-- Only the smallest numbers have a significand that does not fill its place. -/
theorem le_significand (he : -1074 < x.exponent) : 2 ^ 52 ≤ x.significand := by
  simp only [exponent, significand, leadingBit] at he ⊢
  split at he
  · omega
  · rw [if_neg ‹_›]
    omega

theorem exponent_lt (hx : x.isFinite = true) : x.exponent < 972 := by
  have hlt : x.magnitude < infinityMagnitude := of_decide_eq_true hx
  simp only [exponent, infinityMagnitude, leadingBit] at hlt ⊢
  split <;> omega

/-- The magnitudes count the numbers from zero on, as many for one exponent as there are
significands. -/
theorem magnitude_eq (x : Number) :
    x.magnitude = (x.exponent + 1074).toNat * leadingBit + x.significand := by
  simp only [exponent, significand, leadingBit]
  split <;> omega

/-- The rationals that are rounded to a number: half a step up and down, the ends included if the
significand is even. -/
def Covers (x : Number) (q : ℚ) : Prop :=
  if x.significand % 2 = 0 then
    x.lowerEnd * 2 ^ (x.exponent - 2) ≤ q ∧ q ≤ x.upperEnd * 2 ^ (x.exponent - 2)
  else x.lowerEnd * 2 ^ (x.exponent - 2) < q ∧ q < x.upperEnd * 2 ^ (x.exponent - 2)

theorem two_zpow_pos (k : Int) : (0 : ℚ) < 2 ^ k := zpow_pos (by norm_num) k

/-- The interval in steps of the number's last place. -/
theorem covers_iff {u : ℚ} : x.Covers (u * 2 ^ x.exponent) ↔
    (x.lowerEnd / 4 ≤ u ∧ u ≤ x.significand + 1 / 2) ∧
      (x.significand % 2 = 1 → x.lowerEnd / 4 < u ∧ u < x.significand + 1 / 2) := by
  have hstep : (2 : ℚ) ^ x.exponent = 4 * 2 ^ (x.exponent - 2) := by
    rw [show x.exponent = 2 + (x.exponent - 2) by omega, zpow_add₀ (by norm_num)]
    norm_num
  have hpos := two_zpow_pos (x.exponent - 2)
  have hend : (x.upperEnd : ℚ) = 4 * x.significand + 2 := by
    unfold upperEnd
    push_cast
    ring
  have hmul : ∀ a b : ℚ,
      a * 2 ^ (x.exponent - 2) ≤ b * (4 * 2 ^ (x.exponent - 2)) ↔ a / 4 ≤ b := by
    intro a b
    rw [← mul_assoc, mul_le_mul_iff_of_pos_right hpos, div_le_iff₀ (by norm_num)]
  have hmul' : ∀ a b : ℚ,
      a * (4 * 2 ^ (x.exponent - 2)) ≤ b * 2 ^ (x.exponent - 2) ↔ a ≤ b / 4 := by
    intro a b
    rw [← mul_assoc, mul_le_mul_iff_of_pos_right hpos, le_div_iff₀ (by norm_num)]
  have hhalf : (4 * x.significand + 2 : ℚ) / 4 = x.significand + 1 / 2 := by ring
  -- Both ends are compared in the same unit, and an open end is a closed one denied.
  unfold Covers
  rw [hstep, hend, ← not_le, ← not_le, hmul, hmul', hmul, hmul', hhalf, not_le, not_le]
  split
  · rename_i heven
    simp [heven]
  · rename_i hodd
    have hone : x.significand % 2 = 1 := by omega
    simp only [hone, forall_const]
    exact ⟨fun h => ⟨⟨h.1.le, h.2.le⟩, h⟩, And.right⟩

/-- The interval goes down by half a step, but by a quarter below a power of two. -/
theorem lowerEnd_ge (x : Number) : (x.significand : ℚ) - 1 / 2 ≤ x.lowerEnd / 4 ∧
    (x.significand = 2 ^ 52 → -1074 < x.exponent →
      (x.significand : ℚ) - 1 / 4 ≤ x.lowerEnd / 4) := by
  have hcast : ∀ k : Nat, 4 * x.significand ≤ x.lowerEnd + k →
      (x.significand : ℚ) - k / 4 ≤ x.lowerEnd / 4 := by
    intro k hk
    have hle : (4 * x.significand : ℚ) ≤ x.lowerEnd + k := by exact_mod_cast hk
    linarith
  constructor
  · have hle := hcast 2 (by unfold lowerEnd; split <;> omega)
    norm_num at hle ⊢
    exact hle
  · intro hs he
    have hle := hcast 1 (by
      unfold lowerEnd
      rw [if_pos ⟨hs, he⟩]
      omega)
    exact_mod_cast hle

/-! ## To the nearest number -/

/-- A power with any exponent is a quotient of two powers with natural ones. -/
theorem zpow_mul_pow {b : ℚ} (hb : b ≠ 0) (k : Int) : b ^ k * b ^ (-k).toNat = b ^ k.toNat := by
  rw [← zpow_natCast, ← zpow_natCast, ← zpow_add₀ hb]
  congr 1
  omega

/-- The quotient is rounded to `m` if twice the dividend is at most a divisor away from twice as
much as `m` divisors, and less than that if `m` is odd. -/
theorem roundDiv_near {num den m : Nat} (hden : 0 < den) (hlow : 2 * m * den ≤ 2 * num + den)
    (hhigh : 2 * num ≤ 2 * m * den + den)
    (hodd : m % 2 = 1 → 2 * m * den < 2 * num + den ∧ 2 * num < 2 * m * den + den) :
    roundDiv num den = m := by
  unfold roundDiv
  have hmod := Nat.mod_lt num hden
  have hdiv := Nat.div_add_mod num den
  generalize num / den = k at *
  generalize num % den = r at *
  -- The quotient's integer part is `m` itself or the integer below it.
  obtain hk | hk : m = k ∨ m = k + 1 := by
    have hle : k ≤ m := by
      by_contra hgt
      have hmul := Nat.mul_le_mul_right den (Nat.not_le.mp hgt)
      nlinarith
    have hge : m ≤ k + 1 := by
      by_contra hgt
      have hmul := Nat.mul_le_mul_right den (Nat.not_le.mp hgt)
      nlinarith
    omega
  · subst hk
    have htwice : 2 * r ≤ den := by nlinarith
    have htie : 2 * r = den → m % 2 = 0 := by
      intro heq
      by_contra hm
      obtain ⟨-, hlt⟩ := hodd (by omega)
      nlinarith
    have hnot : ¬((decide (den < 2 * r) || 2 * r == den && m % 2 == 1) = true) := by
      simp only [Bool.or_eq_true, Bool.and_eq_true, decide_eq_true_eq, beq_iff_eq]
      omega
    exact if_neg hnot
  · subst hk
    have htwice : den ≤ 2 * r := by nlinarith
    have htie : 2 * r = den → k % 2 = 1 := by
      intro heq
      by_contra hm
      obtain ⟨hlt, -⟩ := hodd (by omega)
      nlinarith
    have hup : (decide (den < 2 * r) || 2 * r == den && k % 2 == 1) = true := by
      simp only [Bool.or_eq_true, Bool.and_eq_true, decide_eq_true_eq, beq_iff_eq]
      omega
    exact if_pos hup

/-- The quotient is rounded to `m` if it is at most a half away from it, and less than that if `m`
is odd. -/
theorem roundDiv_eq {num den m : Nat} {t : ℚ} (hden : 0 < den) (ht : (num : ℚ) = t * den)
    (hlow : m - 1 / 2 ≤ t) (hhigh : t ≤ m + 1 / 2)
    (hodd : m % 2 = 1 → m - 1 / 2 < t ∧ t < m + 1 / 2) : roundDiv num den = m := by
  have hpos : (0 : ℚ) < den := Nat.cast_pos.mpr hden
  refine roundDiv_near hden ?_ ?_ fun hm => ⟨?_, ?_⟩
  · have hle : (2 * m * den : ℚ) ≤ 2 * num + den := by nlinarith
    exact_mod_cast hle
  · have hle : (2 * num : ℚ) ≤ 2 * m * den + den := by nlinarith
    exact_mod_cast hle
  · have hlt : (2 * m * den : ℚ) < 2 * num + den := by nlinarith [(hodd hm).1]
    exact_mod_cast hlt
  · have hlt : (2 * num : ℚ) < 2 * m * den + den := by nlinarith [(hodd hm).2]
    exact_mod_cast hlt

/-- The logarithms of two numbers tell that of the quotient, up to one. -/
theorem div_log2_bounds {num den : Nat} (hnum : 0 < num) (hden : 0 < den) :
    (2 : ℚ) ^ ((num.log2 : Int) - den.log2 - 1) ≤ num / den ∧
      (num / den : ℚ) < 2 ^ ((num.log2 : Int) - den.log2 + 1) := by
  have hpos : (0 : ℚ) < den := Nat.cast_pos.mpr hden
  have hnlow : (2 : ℚ) ^ (num.log2 : Int) ≤ num := by
    rw [zpow_natCast]
    exact_mod_cast Nat.log2_self_le hnum.ne'
  have hnhigh : (num : ℚ) < 2 ^ (num.log2 + 1 : Int) := by
    exact_mod_cast Nat.lt_log2_self (n := num)
  have hdlow : (2 : ℚ) ^ (den.log2 : Int) ≤ den := by
    rw [zpow_natCast]
    exact_mod_cast Nat.log2_self_le hden.ne'
  have hdhigh : (den : ℚ) < 2 ^ (den.log2 + 1 : Int) := by
    exact_mod_cast Nat.lt_log2_self (n := den)
  obtain ⟨k, hk⟩ : ∃ k : Int, k = (num.log2 : Int) - den.log2 := ⟨_, rfl⟩
  rw [← hk, le_div_iff₀ hpos, div_lt_iff₀ hpos]
  constructor
  · calc (2 : ℚ) ^ (k - 1) * den ≤ 2 ^ (k - 1) * 2 ^ (den.log2 + 1 : Int) :=
          mul_le_mul_of_nonneg_left hdhigh.le (two_zpow_pos _).le
      _ = 2 ^ (num.log2 : Int) := by
          rw [← zpow_add₀ (by norm_num)]
          congr 1
          omega
      _ ≤ num := hnlow
  · calc (num : ℚ) < 2 ^ (num.log2 + 1 : Int) := hnhigh
      _ = 2 ^ (k + 1) * 2 ^ (den.log2 : Int) := by
          rw [← zpow_add₀ (by norm_num)]
          congr 1
          omega
      _ ≤ 2 ^ (k + 1) * den := mul_le_mul_of_nonneg_left hdlow (two_zpow_pos _).le

/-- The last place is such that the quotient has 53 digits before it, or the last there is. -/
theorem lastPlace_spec {num den : Nat} (hnum : 0 < num) (hden : 0 < den) :
    -1074 ≤ lastPlace num den ∧ (num / den : ℚ) < 2 ^ (lastPlace num den + 53) ∧
      (-1074 < lastPlace num den → (2 : ℚ) ^ (lastPlace num den + 52) ≤ num / den) := by
  have hpos : (0 : ℚ) < den := Nat.cast_pos.mpr hden
  obtain ⟨hlow, hhigh⟩ := div_log2_bounds hnum hden
  obtain ⟨guess, hguess⟩ : ∃ guess : Int, guess = (num.log2 : Int) - den.log2 - 52 :=
    ⟨_, rfl⟩
  rw [show (num.log2 : Int) - den.log2 - 1 = guess + 51 by omega] at hlow
  rw [show (num.log2 : Int) - den.log2 + 1 = guess + 53 by omega] at hhigh
  -- One comparison decides which of two neighbours the place is.
  have hsmall : num * Nat.pow 2 (-guess).toNat < leadingBit * (den * Nat.pow 2 guess.toNat) ↔
      (num / den : ℚ) < 2 ^ (guess + 52) := by
    have hscale : (0 : ℚ) < 2 ^ (-guess).toNat := by positivity
    have hpow := zpow_mul_pow (b := 2) (by norm_num) guess
    have hright : (2 : ℚ) ^ (guess + 52) * den * 2 ^ (-guess).toNat =
        leadingBit * (den * 2 ^ guess.toNat) := by
      rw [zpow_add₀ (by norm_num), ← hpow]
      norm_num [leadingBit]
      ring
    rw [div_lt_iff₀ hpos, ← mul_lt_mul_iff_of_pos_right hscale, hright, Nat.pow_eq, Nat.pow_eq]
    exact_mod_cast Iff.rfl
  have hplace : lastPlace num den = max (if (num / den : ℚ) < 2 ^ (guess + 52) then guess - 1
      else guess) (-1074) := by
    unfold lastPlace
    simp only [← hguess, hsmall]
  rw [hplace]
  split
  · rename_i hlt
    refine ⟨le_max_right _ _, hlt.trans_le ?_, fun h => ?_⟩
    · exact zpow_le_zpow_right₀ (by norm_num) (by omega)
    · rw [max_eq_left (by omega)]
      exact (zpow_le_zpow_right₀ (by norm_num) (by omega)).trans hlow
  · rename_i hge
    refine ⟨le_max_right _ _, hhigh.trans_le ?_, fun h => ?_⟩
    · exact zpow_le_zpow_right₀ (by norm_num) (by omega)
    · rw [max_eq_left (by omega)]
      exact not_lt.mp hge

/-- Only right below a power of two there are places finer than a number's own. -/
theorem finer_place {u : ℚ} {e : Int} (hmin : -1074 ≤ e) (he : e < x.exponent)
    (hlow : x.lowerEnd / 4 ≤ u) (hhigh : u * 2 ^ x.exponent < 2 ^ (e + 53)) :
    x.significand = 2 ^ 52 ∧ x.exponent = e + 1 ∧ (2 ^ 52 - 1 / 4 : ℚ) ≤ u ∧ u < 2 ^ 52 := by
  obtain ⟨hhalf, hquarter⟩ := x.lowerEnd_ge
  have hleading := le_significand (hmin.trans_lt he)
  have hbelow : ∀ k : Nat, e + 53 ≤ x.exponent + k → u < 2 ^ k := by
    intro k hk
    have hle : (2 : ℚ) ^ (e + 53) ≤ 2 ^ k * 2 ^ x.exponent := by
      rw [← zpow_natCast, ← zpow_add₀ (by norm_num)]
      exact zpow_le_zpow_right₀ (by norm_num) (by omega)
    exact lt_of_mul_lt_mul_right (hhigh.trans_le hle) (two_zpow_pos _).le
  have hlt := hbelow 52 (by omega)
  have hs : x.significand = 2 ^ 52 := by
    have hle : (x.significand : ℚ) < 2 ^ 52 + 1 := by linarith
    have hle' : x.significand < 2 ^ 52 + 1 := by exact_mod_cast hle
    omega
  have hnear := (hquarter hs (hmin.trans_lt he)).trans hlow
  rw [hs] at hnear
  push_cast at hnear
  refine ⟨hs, ?_, hnear, hlt⟩
  by_contra hne
  have hlt51 := hbelow 51 (by omega)
  norm_num at hlt51 hnear
  linarith

/-- A quotient is rounded to a number if it is in the number's interval. -/
theorem ofRatio_eq {num den : Nat} (hx : x.isFinite = true) (hnum : 0 < num) (hden : 0 < den)
    (hq : x.Covers (num / den)) : ofRatio x.isNegative num den = x := by
  obtain ⟨hmin, habove, hbelow⟩ := lastPlace_spec hnum hden
  obtain ⟨e, he⟩ : ∃ e, lastPlace num den = e := ⟨_, rfl⟩
  rw [he] at hmin habove hbelow
  -- The quotient in units of the last place, which is what is rounded to an integer.
  obtain ⟨t, ht⟩ : ∃ t : ℚ, (num / den : ℚ) = t * 2 ^ e :=
    ⟨num / den / 2 ^ e, (div_mul_cancel₀ _ (two_zpow_pos e).ne').symm⟩
  have hpos : (0 : ℚ) < den := Nat.cast_pos.mpr hden
  have hscaled : ((num * Nat.pow 2 (-e).toNat : Nat) : ℚ) =
      t * (den * Nat.pow 2 e.toNat : Nat) := by
    have hpow := zpow_mul_pow (b := 2) (by norm_num) e
    rw [div_eq_iff hpos.ne'] at ht
    push_cast [Nat.pow_eq]
    rw [ht, ← hpow]
    ring
  have hscale : 0 < den * Nat.pow 2 e.toNat := Nat.mul_pos hden (Nat.pow_pos (by norm_num))
  have hround : ∀ m : Nat, (e + 1074).toNat * leadingBit + m = x.magnitude → m - 1 / 2 ≤ t →
      t ≤ m + 1 / 2 → (m % 2 = 1 → m - 1 / 2 < t ∧ t < m + 1 / 2) →
      ofRatio x.isNegative num den = x := by
    intro m hm hlow hhigh hodd
    have hdiv := roundDiv_eq hscale hscaled hlow hhigh hodd
    unfold ofRatio
    rw [if_neg hnum.ne']
    simp only [he, hdiv, hm]
    rw [min_eq_left (Nat.le_of_lt (of_decide_eq_true hx)), ofParts_self]
  -- The same in steps of the number's own last place.
  obtain ⟨u, hu⟩ : ∃ u : ℚ, (num / den : ℚ) = u * 2 ^ x.exponent :=
    ⟨num / den / 2 ^ x.exponent, (div_mul_cancel₀ _ (two_zpow_pos _).ne').symm⟩
  rw [hu] at hq habove hbelow ht
  obtain ⟨⟨hlow, hhigh⟩, hodd⟩ := covers_iff.mp hq
  have hhalf := x.lowerEnd_ge.1
  have hunit := two_zpow_pos x.exponent
  rcases lt_trichotomy e x.exponent with hlt | heq | hgt
  · -- What is not far enough below a power of two is rounded up to it.
    obtain ⟨hs, hnext, hnear, hlt52⟩ := finer_place hmin hlt hlow habove
    have htwice : t = u * 2 := by
      rw [hnext, zpow_add_one₀ (by norm_num)] at ht
      exact mul_right_cancel₀ (two_zpow_pos e).ne' (by linarith)
    refine hround (2 ^ 53) ?_ ?_ ?_ fun h => absurd h (by norm_num)
    · rw [magnitude_eq, hs, hnext, leadingBit]
      omega
    · push_cast
      linarith
    · push_cast
      linarith
  · subst heq
    obtain rfl : t = u := mul_right_cancel₀ hunit.ne' ht.symm
    exact hround x.significand x.magnitude_eq.symm (hhalf.trans hlow) hhigh fun h =>
      ⟨hhalf.trans_lt (hodd h).1, (hodd h).2⟩
  · -- A coarser place would be one for more digits than the significand has.
    have hbound : (x.significand : ℚ) + 1 ≤ 2 ^ 53 := by exact_mod_cast x.significand_lt
    have hle : (2 : ℚ) ^ 53 * 2 ^ x.exponent ≤ 2 ^ (e + 52) := by
      rw [← zpow_natCast, ← zpow_add₀ (by norm_num)]
      exact zpow_le_zpow_right₀ (by norm_num) (by omega)
    have hge := le_of_mul_le_mul_right (hle.trans (hbelow (x.exponent_ge.trans_lt hgt))) hunit
    linarith

/-! ## Decimals -/

/-- What is below all intervals but that of zero. -/
theorem eq_zero_of_covers (hq : x.Covers q) (hsmall : q < 2 ^ (-1075 : Int)) :
    zero x.isNegative = x := by
  have hle : (x.lowerEnd * 2 ^ (x.exponent - 2) : ℚ) ≤ q := by
    unfold Covers at hq
    split at hq
    · exact hq.1
    · exact hq.1.le
  have hzero : x.significand = 0 := by
    -- The interval of any other number begins at half the smallest number or above.
    by_contra hne
    have htwo : (2 : ℚ) ≤ x.lowerEnd := by
      have hend : 2 ≤ x.lowerEnd := by
        unfold lowerEnd
        split <;> omega
      exact_mod_cast hend
    have hpow : (2 : ℚ) ^ (-1076 : Int) ≤ 2 ^ (x.exponent - 2) :=
      zpow_le_zpow_right₀ (by norm_num) (by have := x.exponent_ge; omega)
    have hstep : (2 : ℚ) ^ (-1075 : Int) = 2 * 2 ^ (-1076 : Int) := by
      rw [← zpow_one_add₀ (by norm_num)]
      rfl
    have hpos := two_zpow_pos (-1076)
    nlinarith
  have hexp : x.exponent = -1074 := by
    by_contra hne
    have hleading := le_significand (lt_of_le_of_ne x.exponent_ge (Ne.symm hne))
    omega
  conv_rhs => rw [← ofParts_self x, magnitude_eq, hzero, hexp]
  rfl

/-- What is above all intervals. -/
theorem Covers.lt_max (hx : x.isFinite = true) (hq : x.Covers q) : q < 2 ^ (1024 : Int) := by
  have hle : q ≤ x.upperEnd * 2 ^ (x.exponent - 2) := by
    unfold Covers at hq
    split at hq
    · exact hq.2
    · exact hq.2.le
  have hend : (x.upperEnd : ℚ) < 2 ^ (55 : Int) := by
    have hlt := x.significand_lt
    have hend : x.upperEnd < 2 ^ 55 := by
      unfold upperEnd
      omega
    exact_mod_cast hend
  have hpow : (2 : ℚ) ^ (x.exponent - 2) ≤ 2 ^ (969 : Int) :=
    zpow_le_zpow_right₀ (by norm_num) (by have := exponent_lt hx; omega)
  calc q ≤ x.upperEnd * 2 ^ (x.exponent - 2) := hle
    _ < 2 ^ (55 : Int) * 2 ^ (x.exponent - 2) := mul_lt_mul_of_pos_right hend (two_zpow_pos _)
    _ ≤ 2 ^ (55 : Int) * 2 ^ (969 : Int) := mul_le_mul_of_nonneg_left hpow (two_zpow_pos _).le
    _ = 2 ^ (1024 : Int) := by
        rw [← zpow_add₀ (by norm_num)]
        rfl

theorem two_zpow_le_ten_zpow {k : Int} (hk : 0 ≤ k) : (2 : ℚ) ^ (3 * k) ≤ 10 ^ k := by
  rw [zpow_mul]
  exact zpow_le_zpow_left₀ hk (by norm_num) (by norm_num)

/-- The number of digits says between which powers of ten an integer is. -/
theorem length_digits_spec {d : Nat} (hd : 0 < d) :
    (10 : ℚ) ^ ((toString d).length - 1 : Int) ≤ d ∧
      (d : ℚ) < 10 ^ ((toString d).length : Int) := by
  have hlength : (toString d).length = (Nat.toDigits 10 d).length := by
    rw [Nat.toString_eq_ofList_toDigits, String.length_ofList]
  have hpos := Nat.length_toDigits_pos (b := 10) (n := d)
  have hupper := (Nat.length_toDigits_le_iff (n := d) (b := 10) (by norm_num) hpos).mp le_rfl
  rw [hlength]
  generalize hn : (Nat.toDigits 10 d).length = n at *
  obtain ⟨n, rfl⟩ : ∃ k, n = k + 1 := ⟨n - 1, by omega⟩
  constructor
  · rcases Nat.eq_zero_or_pos n with rfl | hn'
    · norm_num
      exact_mod_cast hd
    · have hlower := mt (Nat.length_toDigits_le_iff (n := d) (b := 10) (by norm_num) hn').mpr
        (by omega)
      push_cast
      rw [add_sub_cancel_right, zpow_natCast]
      exact_mod_cast Nat.not_lt.mp hlower
  · rw [zpow_natCast]
    exact_mod_cast hupper

/-- **A decimal is read as a number** if it is in the number's interval. -/
theorem ofDecimal?_eq {d : Nat} {k : Int} (hx : x.isFinite = true) (hq : x.Covers (d * 10 ^ k)) :
    ofDecimal? x.isNegative d k = some x := by
  have hten : (0 : ℚ) < 10 ^ k := zpow_pos (by norm_num) k
  unfold ofDecimal?
  dsimp only
  split
  · -- So small a decimal is taken for zero without a look at its digits.
    rename_i hsmall
    simp only [Bool.or_eq_true, decide_eq_true_eq] at hsmall
    rw [eq_zero_of_covers hq]
    rcases Nat.eq_zero_or_pos d with rfl | hd
    · rw [Nat.cast_zero, zero_mul]
      exact two_zpow_pos _
    · obtain ⟨-, hupper⟩ := length_digits_spec hd
      have hsize := hsmall.resolve_left hd.ne'
      calc (d * 10 ^ k : ℚ) < 10 ^ ((toString d).length : Int) * 10 ^ k :=
            mul_lt_mul_of_pos_right hupper hten
        _ = 10 ^ ((toString d).length + k) := (zpow_add₀ (by norm_num) _ _).symm
        _ ≤ 10 ^ (-401 : Int) := zpow_le_zpow_right₀ (by norm_num) (by omega)
        _ ≤ 2 ^ (-(3 * 401) : Int) := by
            rw [zpow_neg, zpow_neg]
            exact inv_anti₀ (two_zpow_pos _) (two_zpow_le_ten_zpow (by norm_num))
        _ ≤ 2 ^ (-1075 : Int) := zpow_le_zpow_right₀ (by norm_num) (by norm_num)
  · -- Nor is it so large that it could not be finite.
    rename_i hlarge
    simp only [Bool.or_eq_true, decide_eq_true_eq, not_or] at hlarge
    have hd := Nat.pos_of_ne_zero hlarge.1
    obtain ⟨hlower, -⟩ := length_digits_spec hd
    have hsize : ¬ 400 < ((toString d).length : Int) + k := by
      intro hsize
      refine absurd (hq.lt_max hx) (not_lt.mpr ?_)
      calc (2 : ℚ) ^ (1024 : Int) ≤ 2 ^ (3 * 400 : Int) :=
            zpow_le_zpow_right₀ (by norm_num) (by norm_num)
        _ ≤ 10 ^ (400 : Int) := two_zpow_le_ten_zpow (by norm_num)
        _ ≤ 10 ^ ((toString d).length - 1 + k : Int) :=
            zpow_le_zpow_right₀ (by norm_num) (by omega)
        _ = 10 ^ ((toString d).length - 1 : Int) * 10 ^ k := zpow_add₀ (by norm_num) _ _
        _ ≤ d * 10 ^ k := mul_le_mul_of_nonneg_right hlower hten.le
    have hnum : 0 < d * Nat.pow 10 k.toNat := Nat.mul_pos hd (Nat.pow_pos (by norm_num))
    have hden : 0 < Nat.pow 10 (-k).toNat := Nat.pow_pos (by norm_num)
    have hratio : x.Covers ((d * Nat.pow 10 k.toNat : Nat) / (Nat.pow 10 (-k).toNat : Nat)) := by
      have hscale : (0 : ℚ) < 10 ^ (-k).toNat := by positivity
      rw [Nat.pow_eq, Nat.pow_eq]
      push_cast
      rwa [← zpow_mul_pow (by norm_num) k, ← mul_assoc, mul_div_assoc, div_self hscale.ne',
        mul_one]
    rw [if_neg hsize, ofRatio_eq hx hnum hden hratio, if_pos hx]

/-! ## The shortest decimal -/

/-- What the two sides of the comparisons have been multiplied by. -/
def scale (k e : Int) : ℚ := 10 ^ (-k).toNat * 2 ^ (-e).toNat

theorem scale_pos (k e : Int) : 0 < scale k e := by
  unfold scale
  positivity

theorem decimalSide_eq (d : Nat) (k e : Int) :
    (decimalSide d k e : ℚ) = d * 10 ^ k * scale k e := by
  unfold decimalSide scale
  push_cast [Nat.pow_eq]
  rw [← zpow_mul_pow (by norm_num) k]
  ring

theorem binarySide_eq (a : Nat) (k e : Int) :
    (binarySide a k e : ℚ) = a * 2 ^ e * scale k e := by
  unfold binarySide scale
  push_cast [Nat.pow_eq]
  rw [← zpow_mul_pow (by norm_num) e]
  ring

/-- The search asks whether a decimal is in the interval. -/
theorem readsBack_iff {d : Nat} {k : Int} : x.readsBack d k = true ↔ x.Covers (d * 10 ^ k) := by
  have hscale := scale_pos k (x.exponent - 2)
  have hle : ∀ a b : Nat, a ≤ b ↔ (a : ℚ) ≤ b := fun _ _ => Nat.cast_le.symm
  have hlt : ∀ a b : Nat, a < b ↔ (a : ℚ) < b := fun _ _ => Nat.cast_lt.symm
  unfold readsBack Covers
  dsimp only
  split <;>
    simp only [Bool.and_eq_true, decide_eq_true_eq, hle, hlt, decimalSide_eq, binarySide_eq,
      mul_le_mul_iff_of_pos_right hscale, mul_lt_mul_iff_of_pos_right hscale]

theorem covers_size (x : Number) : x.Covers x.size := by
  refine covers_iff.mpr ⟨⟨?_, by linarith⟩, fun hodd => ⟨?_, by linarith⟩⟩
  · rw [div_le_iff₀ (by norm_num)]
    have hle : x.lowerEnd ≤ x.significand * 4 := by
      unfold lowerEnd
      omega
    exact_mod_cast hle
  · rw [div_lt_iff₀ (by norm_num)]
    have hlt : x.lowerEnd < x.significand * 4 := by
      unfold lowerEnd
      split <;> omega
    exact_mod_cast hlt

/-- The last grid of the search holds the number itself. -/
theorem below_last (x : Number) :
    (x.below (min x.exponent 0) : ℚ) * 10 ^ min x.exponent 0 = x.size := by
  obtain ⟨k, hk⟩ : ∃ k, min x.exponent 0 = k := ⟨_, rfl⟩
  have hten : (0 : ℚ) < 10 ^ k := zpow_pos (by norm_num) k
  -- A binary fraction is a decimal fraction with as many places.
  obtain ⟨n, hn⟩ : ∃ n : Nat, x.size = n * 10 ^ k := by
    rcases le_total 0 x.exponent with hge | hle
    · refine ⟨x.significand * 2 ^ x.exponent.toNat, ?_⟩
      obtain rfl : k = 0 := by omega
      rw [size, zpow_zero, mul_one]
      push_cast
      rw [← zpow_natCast, Int.toNat_of_nonneg hge]
    · refine ⟨x.significand * 5 ^ (-x.exponent).toNat, ?_⟩
      obtain rfl : k = x.exponent := by omega
      rw [size]
      push_cast
      have hpow := zpow_mul_pow (b := 5) (by norm_num) x.exponent
      rw [Int.toNat_of_nonpos hle, pow_zero] at hpow
      rw [show (10 : ℚ) = 2 * 5 by norm_num, mul_zpow]
      linear_combination (-x.significand * 2 ^ x.exponent : ℚ) * hpow
  have hscale := scale_pos k (x.exponent - 2)
  have hsides : binarySide (4 * x.significand) k (x.exponent - 2) =
      n * decimalSide 1 k (x.exponent - 2) := by
    have hstep : (2 : ℚ) ^ x.exponent = 4 * 2 ^ (x.exponent - 2) := by
      rw [show x.exponent = 2 + (x.exponent - 2) by omega, zpow_add₀ (by norm_num)]
      norm_num
    have heq : (binarySide (4 * x.significand) k (x.exponent - 2) : ℚ) =
        n * decimalSide 1 k (x.exponent - 2) := by
      rw [binarySide_eq, decimalSide_eq]
      rw [size, hstep] at hn
      push_cast
      linear_combination scale k (x.exponent - 2) * hn
    exact_mod_cast heq
  have hpos : 0 < decimalSide 1 k (x.exponent - 2) := by
    have hlt : (0 : ℚ) < decimalSide 1 k (x.exponent - 2) := by
      rw [decimalSide_eq]
      positivity
    exact_mod_cast hlt
  rw [hk, below, hsides, Nat.mul_div_cancel _ hpos, hn]

variable {tie : Tie}

theorem nearer_cases (tie : Tie) (x : Number) (d : Nat) (k : Int) :
    nearer tie x d k = d ∨ nearer tie x d k = d + 1 := by
  unfold nearer
  dsimp only
  split
  · exact .inl rfl
  · exact .inr rfl
  · split
    · exact .inr rfl
    · split
      · exact .inl rfl
      · exact .inr rfl

/-- What is found on a grid is in the interval, and is not zero. -/
theorem onGrid?_spec {k : Int} {d : Nat} (hd : x.onGrid? tie k = some d) :
    d ≠ 0 ∧ x.Covers (d * 10 ^ k) := by
  have hsucc : ∀ b : Nat, x.readsBack (b + 1) k = true →
      b + 1 ≠ 0 ∧ x.Covers ((b + 1 : Nat) * 10 ^ k) :=
    fun b hb => ⟨Nat.succ_ne_zero b, readsBack_iff.mp hb⟩
  unfold onGrid? at hd
  dsimp only at hd
  split at hd
  · rename_i hlow hhigh
    obtain ⟨hne, hback⟩ := Bool.and_eq_true_iff.mp hlow
    obtain hnear | hnear := nearer_cases tie x (x.below k) k
    · rw [hnear] at hd
      cases hd
      exact ⟨bne_iff_ne.mp hne, readsBack_iff.mp hback⟩
    · rw [hnear] at hd
      cases hd
      exact hsucc _ hhigh
  · rename_i hlow _
    obtain ⟨hne, hback⟩ := Bool.and_eq_true_iff.mp hlow
    cases hd
    exact ⟨bne_iff_ne.mp hne, readsBack_iff.mp hback⟩
  · rename_i hhigh
    cases hd
    exact hsucc _ hhigh
  · cases hd

theorem firstGrid_spec (tie : Tie) (hs : x.significand ≠ 0) (n : Nat) :
    let d := firstGrid tie x (min x.exponent 0) n
    d.digits ≠ 0 ∧ x.Covers (d.digits * 10 ^ d.exponent) := by
  induction n with
  | zero =>
    have hsize : x.size ≠ 0 := mul_ne_zero (Nat.cast_ne_zero.mpr hs) (two_zpow_pos _).ne'
    have hlast := x.below_last
    refine ⟨fun hzero => hsize ?_, ?_⟩
    · change x.below (min x.exponent 0) = 0 at hzero
      rw [← hlast, hzero, Nat.cast_zero, zero_mul]
    · show x.Covers (x.below (min x.exponent 0) * 10 ^ min x.exponent 0)
      rw [hlast]
      exact x.covers_size
  | succ n ih =>
    unfold firstGrid
    split
    · rename_i d hd
      exact onGrid?_spec hd
    · exact ih

/-- The search ends with a decimal in the number's interval, and with zero for zero only. -/
theorem shortest_spec (tie : Tie) (x : Number) :
    x.Covers ((x.shortest tie).digits * 10 ^ (x.shortest tie).exponent) ∧
      ((x.shortest tie).digits = 0 ↔ x.significand = 0) := by
  unfold shortest
  split
  · rename_i hs
    have hsize : x.size = 0 := by rw [size, hs, Nat.cast_zero, zero_mul]
    refine ⟨?_, by simp [hs]⟩
    simpa [hsize] using x.covers_size
  · rename_i hs
    obtain ⟨hne, hcovers⟩ := firstGrid_spec tie hs _
    exact ⟨hcovers, by simp [hs, hne]⟩

/-- **The shortest decimal of a number is read as the number.** -/
theorem ofDecimal?_shortest (hx : x.isFinite = true) :
    ofDecimal? x.isNegative (x.shortest tie).digits (x.shortest tie).exponent = some x :=
  ofDecimal?_eq hx (shortest_spec tie x).1

/-! ## Integers -/

theorem isFinite_of_isIntegral (hx : x.isIntegral = true) : x.isFinite = true :=
  (Bool.and_eq_true_iff.mp hx).1

/-- Nothing is lost of a number that has no fraction. -/
theorem size_of_isIntegral (hx : x.isIntegral = true) : x.size = x.floorMagnitude := by
  have hmod := beq_iff_eq.mp (Bool.and_eq_true_iff.mp hx).2
  have hfloor : x.floorMagnitude * 2 ^ (-x.exponent).toNat =
      x.significand * 2 ^ x.exponent.toNat := Nat.div_mul_cancel (Nat.dvd_of_mod_eq_zero hmod)
  have hcast : (x.floorMagnitude * 2 ^ (-x.exponent).toNat : ℚ) =
      x.significand * 2 ^ x.exponent.toNat := by exact_mod_cast hfloor
  have hscale : (0 : ℚ) < 2 ^ (-x.exponent).toNat := by positivity
  rw [← zpow_mul_pow (by norm_num) x.exponent, ← mul_assoc] at hcast
  exact (mul_right_cancel₀ hscale.ne' hcast).symm

/-- A number without a fraction is the number of its integer, but for the sign of zero. -/
theorem ofInt_of_truncate? {n : Int} (hx : x.isIntegral = true) (hn : x.truncate? = some n) :
    ofInt n = x ∨ ofInt n = zero false ∧ zero x.isNegative = x := by
  have hfinite := isFinite_of_isIntegral hx
  have hcovers := x.covers_size
  rw [size_of_isIntegral hx] at hcovers
  rw [truncate?, if_pos hfinite] at hn
  cases hn
  rcases Nat.eq_zero_or_pos x.floorMagnitude with hzero | hpos
  · right
    rw [hzero, Nat.cast_zero] at hcovers
    refine ⟨?_, eq_zero_of_covers hcovers (two_zpow_pos _)⟩
    simp only [hzero, Nat.cast_zero, neg_zero, ite_self]
    rfl
  · left
    have hratio := ofRatio_eq hfinite hpos one_pos (by rwa [Nat.cast_one, div_one])
    unfold ofInt
    cases hneg : x.isNegative with
    | true =>
      rw [hneg] at hratio
      have hlt : -(x.floorMagnitude : Int) < 0 := by omega
      rwa [if_pos rfl, decide_eq_true hlt, Int.natAbs_neg, Int.natAbs_natCast]
    | false =>
      rw [hneg] at hratio
      have hge : ¬ (x.floorMagnitude : Int) < 0 := by omega
      rwa [if_neg Bool.false_ne_true, decide_eq_false hge, Int.natAbs_natCast]

end TaskVm.Number
