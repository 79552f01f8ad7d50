import TaskVm.Json.Reader
import TaskVm.Proofs.Rounding

/-!
# Numerals

The text of a number has a sign, digits, a point with more digits and an exponent, or some of these.
What is read is the decimal that they spell. In the text of a number this is the number's shortest
decimal, whichever way it is laid out, so that the number itself is read back. Integers have neither
a point nor an exponent, which is how a reader tells the two apart.
-/

namespace TaskVm

namespace Json

variable {ds es rest : List Char} {c : Char} {negative : Bool}

/-! ## Digits -/

/-- Nothing but digits, and at least one. -/
structure Digital (ds : List Char) : Prop where
  nonempty : ds ≠ []
  digit : ∀ c ∈ ds, isDigit c = true

/-- A part of some digits. -/
theorem Digital.part (hd : Digital ds) (hne : es ≠ []) (hsub : es ⊆ ds) : Digital es where
  nonempty := hne
  digit c hc := hd.digit c (hsub hc)

theorem digital_toString (n : Nat) : Digital (toString n).toList := by
  rw [Nat.toString_eq_ofList_toDigits, String.toList_ofList]
  exact ⟨Nat.toDigits_ne_nil, fun c hc => Nat.isDigit_of_mem_toDigits (by norm_num) le_rfl hc⟩

theorem digital_zero : Digital ['0'] := digital_toString 0

theorem isDigit_of_mem_zeros {n : Nat} (hc : c ∈ List.replicate n '0') : isDigit c = true :=
  digital_zero.digit c (List.mem_singleton.mpr (List.eq_of_mem_replicate hc))

theorem Digital.zeros_append (hd : Digital ds) (n : Nat) :
    Digital (List.replicate n '0' ++ ds) where
  nonempty := List.append_ne_nil_of_right_ne_nil _ hd.nonempty
  digit c hc := (List.mem_append.mp hc).elim isDigit_of_mem_zeros (hd.digit c)

theorem Digital.append_zeros (hd : Digital ds) (n : Nat) :
    Digital (ds ++ List.replicate n '0') where
  nonempty := List.append_ne_nil_of_left_ne_nil hd.nonempty _
  digit c hc := (List.mem_append.mp hc).elim (hd.digit c) isDigit_of_mem_zeros

/-- The digits of a number do not begin with a zero. -/
theorem head?_toString {n : Nat} (hn : n ≠ 0) : (toString n).toList.head? ≠ some '0' := by
  rw [Nat.toString_eq_ofList_toDigits, String.toList_ofList]
  -- By induction over the digits from the last one on, which is the first if it is alone.
  induction n using Nat.strongRecOn with
  | ind n ih =>
    rw [Nat.toDigits_eq_if (by norm_num)]
    split
    · rename_i hlt
      have hdigit : ∀ n < 10, n ≠ 0 → some n.digitChar ≠ some '0' := by decide
      exact hdigit n hlt hn
    · rw [List.head?_append_of_ne_nil _ Nat.toDigits_ne_nil]
      exact ih (n / 10) (by omega) (by omega)

/-- The digits of a number spell the number. -/
theorem decimalValue_toString (n : Nat) : decimalValue (toString n).toList = n := by
  rw [Nat.toString_eq_ofList_toDigits, String.toList_ofList]
  exact Nat.ofDigitChars_ten_toDigits

theorem decimalValue_append (ds es : List Char) :
    decimalValue (ds ++ es) = decimalValue ds * 10 ^ es.length + decimalValue es := by
  induction es using List.reverseRecOn with
  | nil => simp [decimalValue]
  | append_singleton es c ih =>
    rw [← List.append_assoc]
    simp only [decimalValue, List.foldl_append, List.foldl_cons, List.foldl_nil, List.length_append,
      List.length_singleton, pow_succ] at ih ⊢
    rw [ih]
    ring

theorem decimalValue_zeros (n : Nat) : decimalValue (List.replicate n '0') = 0 := by
  induction n with
  | zero => rfl
  | succ n ih =>
    rw [List.replicate_succ', decimalValue_append, ih]
    rfl

/-! ## Reading the parts -/

/-- No digit comes next. -/
def Stops (rest : List Char) : Prop := ∀ c ∈ rest.head?, isDigit c = false

theorem digits_append (hd : Digital ds) (hrest : Stops rest) :
    digits (ds ++ rest) = some (ds, rest) := by
  have htake : (ds ++ rest).takeWhile isDigit = ds := by
    rw [List.takeWhile_append_of_pos hd.digit]
    cases rest with
    | nil => simp
    | cons c rest => simp [hrest c rfl]
  have hdrop : (ds ++ rest).dropWhile isDigit = rest := by
    rw [List.dropWhile_append_of_pos hd.digit]
    cases rest with
    | nil => rfl
    | cons c rest => simp [hrest c rfl]
  unfold digits
  rw [htake, hdrop]
  cases ds with
  | nil => exact absurd rfl hd.nonempty
  | cons c ds => rfl

theorem integerPart_append (hd : Digital ds) (hzero : ds = ['0'] ∨ ds.head? ≠ some '0')
    (hrest : Stops rest) : integerPart (ds ++ rest) = some (ds, rest) := by
  obtain rfl | hhead := hzero
  · cases rest with
    | nil => rfl
    | cons c rest => simp [integerPart, hrest c rfl]
  · rw [← digits_append hd hrest]
    cases ds with
    | nil => exact absurd rfl hd.nonempty
    | cons c ds =>
      have hc : c ≠ '0' := fun h => hhead (congrArg some h)
      rw [List.cons_append, integerPart]
      rintro _ ⟨⟩
      exact hc rfl

/-- Nothing comes next that could belong to a number. -/
def Closes (rest : List Char) : Prop := ∀ c ∈ rest.head?, c = ',' ∨ c = ']' ∨ c = '\x7d'

theorem Closes.stops (hrest : Closes rest) : Stops rest := by
  intro c hc
  obtain rfl | rfl | rfl := hrest c hc <;> rfl

/-- The digits after the point, with the point. -/
def fractionText : Option (List Char) → List Char
  | none => []
  | some ds => '.' :: ds

/-- The exponent of ten with its sign. -/
def exponentText : Option Int → List Char
  | none => []
  | some n => 'e' :: (if n < 0 then '-' else '+') :: (toString n.natAbs).toList

theorem fractionPart_append (fraction : Option (List Char))
    (hfraction : ∀ ds ∈ fraction, Digital ds) (hrest : Stops rest)
    (hpoint : rest.head? ≠ some '.') :
    fractionPart (fractionText fraction ++ rest) = some (fraction, rest) := by
  cases fraction with
  | none =>
    cases rest with
    | nil => rfl
    | cons c rest =>
      have hc : c ≠ '.' := fun h => hpoint (congrArg some h)
      rw [fractionText, List.nil_append, fractionPart]
      rintro _ ⟨⟩
      exact hc rfl
  | some ds =>
    rw [fractionText, List.cons_append, fractionPart, digits_append (hfraction ds rfl) hrest]
    rfl

theorem exponentPart_append (exponent : Option Int) (hrest : Closes rest) :
    exponentPart (exponentText exponent ++ rest) = some (exponent, rest) := by
  cases exponent with
  | none =>
    cases rest with
    | nil => rfl
    | cons c rest =>
      have hc : ¬(c = 'e' ∨ c = 'E') := by
        obtain rfl | rfl | rfl := hrest c rfl <;> decide
      unfold exponentText exponentPart
      exact if_neg hc
  | some n =>
    have hdigits := digits_append (digital_toString n.natAbs) hrest.stops
    by_cases hneg : n < 0
    · rw [exponentText, if_pos hneg]
      unfold exponentPart
      simp only [List.cons_append, true_or, if_true, hdigits, decimalValue_toString,
        Option.bind_eq_bind, Option.bind_some]
      rw [Int.ofNat_natAbs_of_nonpos hneg.le, neg_neg]
    · rw [exponentText, if_neg hneg]
      unfold exponentPart
      simp only [List.cons_append, true_or, if_true, hdigits, decimalValue_toString,
        Option.bind_eq_bind, Option.bind_some, Bool.false_eq_true, if_false]
      rw [Int.natAbs_of_nonneg (not_lt.mp hneg)]

theorem stops_exponentText (exponent : Option Int) (hrest : Closes rest) :
    Stops (exponentText exponent ++ rest) ∧
      (exponentText exponent ++ rest).head? ≠ some '.' := by
  cases exponent with
  | none =>
    refine ⟨hrest.stops, fun h => ?_⟩
    obtain h | h | h := hrest '.' h <;> exact absurd h (by decide)
  | some n => exact ⟨by rintro _ ⟨⟩; rfl, by simp [exponentText]⟩

theorem stops_fractionText (fraction : Option (List Char)) (hrest : Stops rest) :
    Stops (fractionText fraction ++ rest) := by
  cases fraction with
  | none => exact hrest
  | some ds =>
    rintro _ ⟨⟩
    rfl

/-- Without a sign a number begins with a digit. -/
theorem number_digital (hds : Digital ds) :
    number (ds ++ rest) = unsignedNumber false (ds ++ rest) := by
  obtain ⟨c, ds', rfl⟩ := List.exists_cons_of_ne_nil hds.nonempty
  have hc : c ≠ '-' := by
    rintro rfl
    cases hds.digit '-' List.mem_cons_self
  rw [List.cons_append, number]
  rintro _ ⟨⟩
  exact hc rfl

/-! ## Numerals -/

/-- The parts of a number's text that has a point or an exponent. -/
structure Numeral where
  whole : List Char
  fraction : Option (List Char)
  exponent : Option Int
  digital : Digital whole
  /-- Nothing is written before the first digit that counts. -/
  leading : whole = ['0'] ∨ whole.head? ≠ some '0'
  fractional : ∀ ds ∈ fraction, Digital ds
  broken : fraction.isSome ∨ exponent.isSome

namespace Numeral

def text (n : Numeral) : List Char :=
  n.whole ++ (fractionText n.fraction ++ exponentText n.exponent)

/-- The integer that all digits spell. -/
def significand (n : Numeral) : Nat := decimalValue (n.whole ++ n.fraction.getD [])

/-- The power of ten that the last digit weighs. -/
def place (n : Numeral) : Int := n.exponent.getD 0 - (n.fraction.getD []).length

theorem unsignedNumber_text (n : Numeral) (hrest : Closes rest) :
    unsignedNumber negative (n.text ++ rest) =
      (Number.ofDecimal? negative n.significand n.place).map fun x => (float x, rest) := by
  obtain ⟨hstops, hpoint⟩ := stops_exponentText n.exponent hrest
  have hwhole := integerPart_append n.digital n.leading
    (stops_fractionText n.fraction hstops)
  have hfraction := fractionPart_append _ n.fractional hstops hpoint
  have hexponent := exponentPart_append n.exponent hrest
  have hbroken := n.broken
  unfold text unsignedNumber significand place
  rw [List.append_assoc, List.append_assoc, hwhole]
  simp only [Option.bind_eq_bind, Option.bind_some, hfraction, hexponent]
  split
  · rename_i hf he
    rw [hf, he] at hbroken
    simp at hbroken
  · rfl

theorem number_text (n : Numeral) (negative : Bool) (hrest : Closes rest) :
    number ((if negative then ['-'] else []) ++ (n.text ++ rest)) =
      (Number.ofDecimal? negative n.significand n.place).map fun x => (float x, rest) := by
  rw [← n.unsignedNumber_text hrest]
  cases negative with
  | true => rfl
  | false =>
    rw [if_neg Bool.false_ne_true, List.nil_append, text, List.append_assoc]
    exact number_digital n.digital

end Numeral

end Json

namespace Number

open Json

variable {ds : List Char}

/-- Digits with a point among them, or with zeros between them and the point. -/
theorem positionalText_numeral (hds : Digital ds) (hhead : ds.head? ≠ some '0') (point : Int) :
    ∃ n : Numeral, (positionalText true ds point).toList = n.text ∧
      (n.significand * 10 ^ n.place : ℚ) = decimalValue ds * 10 ^ (point - ds.length) := by
  have hlength : 0 < ds.length := List.length_pos_iff.mpr hds.nonempty
  unfold positionalText zeros
  split
  · -- All digits are after the point, behind some zeros.
    rename_i hpoint
    refine ⟨⟨['0'], some (List.replicate (-point).toNat '0' ++ ds), none,
      digital_zero, .inl rfl, ?_, .inl rfl⟩, ?_, ?_⟩
    · rintro _ ⟨⟩
      exact hds.zeros_append _
    · simp [Numeral.text, fractionText, exponentText]
    · have hzero : decimalValue ['0'] = 0 := rfl
      simp only [Numeral.significand, Numeral.place, Option.getD_some, Option.getD_none,
        decimalValue_append, decimalValue_zeros, hzero, zero_mul, zero_add, List.length_append,
        List.length_replicate]
      congr 2
      omega
  · split
    · -- All digits are before the point, and some zeros behind them.
      rename_i hpoint hle
      refine ⟨⟨ds ++ List.replicate (point.toNat - ds.length) '0', some ['0'], none,
        hds.append_zeros _, .inr ?_, ?_, .inl rfl⟩, ?_, ?_⟩
      · rwa [List.head?_append_of_ne_nil _ hds.nonempty]
      · rintro _ ⟨⟩
        exact digital_zero
      · simp [Numeral.text, fractionText, exponentText]
      · have hzero : decimalValue ['0'] = 0 := rfl
        have hexponent : (point - ds.length : Int) = (point.toNat - ds.length : Nat) := by omega
        simp only [Numeral.significand, Numeral.place, Option.getD_some, Option.getD_none,
          decimalValue_append, decimalValue_zeros, hzero, add_zero, List.length_replicate,
          List.length_singleton, hexponent, zpow_natCast]
        push_cast
        rw [zpow_neg_one, mul_inv_cancel_right₀ (by norm_num)]
    · -- The point is among the digits.
      rename_i hpoint hlt
      have htake : (ds.take point.toNat).length = point.toNat := by
        rw [List.length_take]
        omega
      refine ⟨⟨ds.take point.toNat, some (ds.drop point.toNat), none,
        hds.part ?_ (List.take_subset _ _), .inr ?_, ?_, .inl rfl⟩, ?_, ?_⟩
      · exact List.ne_nil_of_length_pos (by omega)
      · rwa [List.head?_take, if_neg (by omega)]
      · rintro _ ⟨⟩
        refine hds.part (List.ne_nil_of_length_pos ?_) (List.drop_subset _ _)
        rw [List.length_drop]
        omega
      · simp [Numeral.text, fractionText, exponentText]
      · simp only [Numeral.significand, Numeral.place, Option.getD_some, Option.getD_none,
          List.take_append_drop, List.length_drop]
        congr 2
        omega

/-- Digits with an exponent. -/
theorem scientificText_numeral (hds : Digital ds) (hhead : ds.head? ≠ some '0') (exponent : Int) :
    ∃ n : Numeral, (scientificText true ds exponent).toList = n.text ∧
      (n.significand * 10 ^ n.place : ℚ) = decimalValue ds * 10 ^ (exponent + 1 - ds.length) := by
  obtain ⟨c, rest, rfl⟩ := List.exists_cons_of_ne_nil hds.nonempty
  have hfirst : Digital [c] := hds.part (by simp) (by simp)
  have hleading : [c].head? ≠ some '0' := hhead
  have hsign : (if exponent < 0 then "-" else if true = true then "+" else "") =
      String.singleton (if exponent < 0 then '-' else '+') := by
    split <;> rfl
  unfold scientificText
  rw [hsign]
  cases rest with
  | nil =>
    refine ⟨⟨[c], none, some exponent, hfirst, .inr hleading, nofun, .inr rfl⟩, ?_, ?_⟩
    · simp [Numeral.text, fractionText, exponentText]
    · simp [Numeral.significand, Numeral.place]
  | cons c' rest =>
    refine ⟨⟨[c], some (c' :: rest), some exponent, hfirst, .inr hleading, ?_, .inr rfl⟩,
      ?_, ?_⟩
    · rintro _ ⟨⟩
      exact hds.part (by simp) (by simp)
    · simp [Numeral.text, fractionText, exponentText]
    · simp only [Numeral.significand, Numeral.place, Option.getD_some, List.singleton_append,
        List.length_cons]
      congr 2
      push_cast
      omega

/-- **The text of a decimal spells the decimal.** -/
theorem decimal_numeral {d : Decimal} (hd : d.digits ≠ 0) : ∃ n : Numeral,
    (Style.json.decimal d).toList = n.text ∧
      (n.significand * 10 ^ n.place : ℚ) = d.digits * 10 ^ d.exponent := by
  have hdigital := digital_toString d.digits
  have hhead := head?_toString hd
  have hvalue := decimalValue_toString d.digits
  have hlayout : Style.json.decimal d = positionalText true (toString d.digits).toList
        (d.exponent + (toString d.digits).toList.length - 1 + 1) ∨
      Style.json.decimal d = scientificText true (toString d.digits).toList
        (d.exponent + (toString d.digits).toList.length - 1) := ite_eq_or_eq _ _ _
  generalize (toString d.digits).toList = ds at *
  obtain hlayout | hlayout := hlayout
  · obtain ⟨n, htext, hspells⟩ := positionalText_numeral hdigital hhead
      (d.exponent + ds.length - 1 + 1)
    refine ⟨n, hlayout ▸ htext, hspells.trans ?_⟩
    rw [hvalue]
    congr 2
    omega
  · obtain ⟨n, htext, hspells⟩ := scientificText_numeral hdigital hhead
      (d.exponent + ds.length - 1)
    refine ⟨n, hlayout ▸ htext, hspells.trans ?_⟩
    rw [hvalue]
    congr 2
    omega

/-- Zero is written with a point. -/
def zeroNumeral : Numeral :=
  ⟨['0'], some ['0'], none, digital_zero, .inl rfl,
    fun _ hds => Option.mem_some.mp hds ▸ digital_zero, .inl rfl⟩

theorem isZero_iff (x : Number) : x.isZero = true ↔ x.significand = 0 := by
  have hmagnitude := x.magnitude_eq
  rw [isZero, decide_eq_true_eq]
  constructor
  · omega
  · intro hs
    simp only [significand, leadingBit] at hs
    split at hs <;> omega

/-- The text of a finite number spells a decimal that is read as the number. -/
theorem text_numeral {x : Number} (hx : x.isFinite = true) : ∃ n : Numeral,
    (x.text .json).toList = (if x.isNegative then ['-'] else []) ++ n.text ∧
      x.Covers (n.significand * 10 ^ n.place) := by
  have hlt : x.magnitude < infinityMagnitude := of_decide_eq_true hx
  have hnan : x.isNaN = false := decide_eq_false (Nat.lt_asymm hlt)
  have hinfinite : x.isInfinite = false := decide_eq_false (Nat.ne_of_lt hlt)
  obtain ⟨hcovers, hdigits⟩ := shortest_spec .even x
  have hsign : (if x.isNegative then "-" else "").toList = if x.isNegative then ['-'] else [] := by
    split <;> rfl
  unfold text
  simp only [hnan, hinfinite, Bool.false_eq_true, if_false, String.toList_append, hsign]
  cases hzero : x.isZero with
  | true =>
    have htext : (if Style.json.pointZero = true then "0.0" else "0").toList =
        zeroNumeral.text := by
      decide
    refine ⟨zeroNumeral, congrArg _ htext, ?_⟩
    have hspells : (zeroNumeral.significand * 10 ^ zeroNumeral.place : ℚ) = 0 := by
      have hsignificand : zeroNumeral.significand = 0 := rfl
      rw [hsignificand, Nat.cast_zero, zero_mul]
    rw [hdigits.mpr (x.isZero_iff.mp hzero), Nat.cast_zero, zero_mul] at hcovers
    rwa [hspells]
  | false =>
    have hne : (x.shortest .even).digits ≠ 0 := by
      intro h
      rw [x.isZero_iff.mpr (hdigits.mp h)] at hzero
      cases hzero
    obtain ⟨n, htext, hspells⟩ := decimal_numeral hne
    rw [← hspells] at hcovers
    exact ⟨n, congrArg _ htext, hcovers⟩

end Number

namespace Json

/-- **A number is read back from its text.** -/
theorem number_text {x : Number} (hx : x.isFinite = true) (hrest : Closes rest) :
    number ((x.text .json).toList ++ rest) = some (float x, rest) := by
  obtain ⟨n, htext, hcovers⟩ := Number.text_numeral hx
  rw [htext, List.append_assoc, n.number_text x.isNegative hrest, Number.ofDecimal?_eq hx hcovers]
  rfl

/-- **An integer is read back from its text** if it fits a word. -/
theorem number_toString {n : Int} (hmin : minInteger ≤ n) (hmax : n ≤ maxInteger)
    (hrest : Closes rest) : number ((toString n).toList ++ rest) = some (integer n, rest) := by
  -- Behind the sign there are the digits of the absolute value. There is no minus before a zero.
  have hread : ∀ (negative : Bool) (k : Nat), (negative = true → k ≠ 0) →
      n = (if negative then -(k : Int) else k) →
      unsignedNumber negative ((toString k).toList ++ rest) = some (integer n, rest) := by
    intro negative k hzero hn
    have hleading : (toString k).toList = ['0'] ∨ (toString k).toList.head? ≠ some '0' := by
      rcases Nat.eq_zero_or_pos k with rfl | hk
      · exact .inl rfl
      · exact .inr (head?_toString hk.ne')
    have hwhole := integerPart_append (digital_toString k) hleading hrest.stops
    have hfraction := fractionPart_append none nofun hrest.stops
      (stops_exponentText none hrest).2
    have hexponent := exponentPart_append none hrest
    rw [fractionText, List.nil_append] at hfraction
    rw [exponentText, List.nil_append] at hexponent
    have hplain : ofInteger? negative k = some (integer n) := by
      have hfits : (negative && k == 0 || decide (n < minInteger) || decide (maxInteger < n)) =
          false := by
        have hnot : (negative && k == 0) = false := by
          rw [Bool.and_eq_false_iff]
          cases negative with
          | false => exact .inl rfl
          | true => exact .inr (beq_eq_false_iff_ne.mpr (hzero rfl))
        rw [hnot, decide_eq_false (not_lt.mpr hmin), decide_eq_false (not_lt.mpr hmax)]
        rfl
      unfold ofInteger?
      simp only [← hn, hfits, Bool.false_eq_true, if_false]
    unfold unsignedNumber
    simp only [hwhole, hfraction, hexponent, Option.bind_eq_bind, Option.bind_some,
      decimalValue_toString, hplain, Option.map_some]
  cases n with
  | ofNat k =>
    exact (number_digital (digital_toString k)).trans (hread false k nofun rfl)
  | negSucc k =>
    have htext : (toString (Int.negSucc k)).toList = '-' :: (toString (k + 1)).toList :=
      String.toList_append
    rw [htext, List.cons_append, number]
    exact hread true (k + 1) (fun _ => Nat.succ_ne_zero k) rfl

end Json

end TaskVm
