import TaskVm.Proofs.Failures
import TaskVm.Proofs.Quantities

/-!
# Positions

Programs have no integers: a position is a number, and any number may be given for one. A slice and
an insertion take every number for some place, the nearest one there is; all others take the
integers in range and nothing else. Both are told here in terms of the quantity that the number is.
No element is looked for where there is none, because the places are members of `Fin`.
-/

namespace TaskVm

/-! ## Places that are held between the ends -/

/-- Where a number points to in what is `len` long, when it cannot miss: its integer part toward
zero, moved, and held between the ends. A NaN counts as 0, and an infinity points to an end. -/
def Number.pointWithin (x : Number) (move : Int → Int) (len : Nat) : Nat :=
  if x.isNaN then 0
  else if x.isInfinite then if x.isNegative then 0 else len
  else (max 0 (min (move (Number.towardZero x.value)) len)).toNat

/-- What is negative is counted from the end. -/
def fromEnd (len : Nat) (i : Int) : Int := if i < 0 then i + len else i

namespace Number

variable {x : Number} {len : Nat}

theorem pointWithin_le (x : Number) (move : Int → Int) (len : Nat) :
    x.pointWithin move len ≤ len := by
  unfold pointWithin
  repeat' split
  all_goals omega

/-- Where a number points to that is none of the NaNs. -/
theorem pointWithin_eq (move : Int → Int) (hx : x.isNaN = false) (hlen : len ≤ 2 ^ 53)
    (hlow : ∀ i, i < -2 ^ 53 → move i ≤ 0) (hhigh : ∀ i, 2 ^ 53 < i → len ≤ move i) :
    ∃ i : Int, x.trunc.isNaN = false ∧ x.trunc.value = i ∧
      x.pointWithin move len = (max 0 (min (move i) len)).toNat := by
  unfold pointWithin
  rw [hx, if_neg Bool.false_ne_true]
  cases hfinite : x.isFinite with
  | true =>
    obtain ⟨hfinite', hvalue⟩ := value_trunc hfinite
    rw [not_isInfinite_of_isFinite hfinite, if_neg Bool.false_ne_true]
    exact ⟨_, not_isNaN_of_isFinite hfinite', hvalue, rfl⟩
  | false =>
    obtain ⟨i, hi, hfar⟩ := value_of_not_isFinite hx hfinite
    rw [trunc_of_not_isFinite hx hfinite, if_pos (isInfinite_of_not_isFinite hx hfinite)]
    refine ⟨i, hx, hi, ?_⟩
    split at hfar
    · rw [if_pos ‹_›]
      have := hlow i hfar
      omega
    · rw [if_neg ‹_›]
      have := hhigh i hfar
      omega

theorem pointWithin_of_isNaN {move : Int → Int} (hx : x.isNaN = true) :
    x.pointWithin move len = 0 := if_pos hx

end Number

namespace Builtin

open Number

variable {x : Number} {len : Nat}

/-- **A bound of a slice is where the number points to, counted from the end if negative.** -/
theorem sliceBound_eq (x : Number) (hlen : len ≤ 2 ^ 53) :
    sliceBound x len = x.pointWithin (fromEnd len) len := by
  unfold sliceBound
  dsimp only
  cases hx : x.isNaN with
  | true =>
    have hnan := isNaN_trunc hx
    rw [pointWithin_of_isNaN hx, less_of_isNaN (.inl hnan), if_neg Bool.false_ne_true, clamp,
      less_of_isNaN (.inl hnan), less_of_isNaN (.inr hnan), if_neg Bool.false_ne_true,
      if_neg Bool.false_ne_true, toWord_of_isNaN hnan]
  | false =>
    obtain ⟨i, hnan, hi, hpoint⟩ := pointWithin_eq (fromEnd len) hx hlen
      (fun i h => by unfold fromEnd; split <;> omega)
      (fun i h => by unfold fromEnd; split <;> omega)
    have hneg : x.trunc.less (zero false) = true ↔ i < 0 := by
      rw [less_iff hnan (not_isNaN_of_isFinite isFinite_zero), hi, value_zero]
      exact_mod_cast Iff.rfl
    rw [hpoint]
    simp only [hneg, fromEnd]
    split
    · rename_i hlt
      obtain ⟨hnan', hexact, hbelow⟩ := add_ofNat hnan hi hlt hlen
      by_cases hge : 0 ≤ i + len
      · exact toWord_clamp hnan' (hexact hge) hlen
      · -- However the sum is rounded, it is not above zero.
        rw [toWord_clamp_of_isNegative hnan' (hbelow (not_le.mp hge)) hlen]
        omega
    · exact toWord_clamp hnan hi hlen

/-- **An element is inserted where the number points to.** -/
theorem insertionPoint_eq (x : Number) (hlen : len ≤ 2 ^ 53) :
    insertionPoint x len = x.pointWithin id len := by
  unfold insertionPoint
  cases hx : x.isNaN with
  | true => exact (pointWithin_of_isNaN hx).symm
  | false =>
    have hpos : (zero false).less x = true ↔ 0 < x.value := by
      rw [less_iff (not_isNaN_of_isFinite isFinite_zero) hx, value_zero]
    unfold pointWithin
    rw [hx, Bool.false_or, if_neg Bool.false_ne_true]
    -- The word conversion saturates: a finite point is cut toward zero, an infinite one by its sign
    -- alone.
    cases hfinite : x.isFinite with
    | true =>
      rw [not_isInfinite_of_isFinite hfinite, if_neg Bool.false_ne_true,
        toWord_of_isFinite hfinite, id]
      cases hless : (zero false).less x with
      | true =>
        rw [Bool.not_true, if_neg Bool.false_ne_true]
        omega
      | false =>
        have hle : x.value ≤ 0 := not_lt.mp fun h => by
          rw [hpos.mpr h] at hless
          cases hless
        have := towardZero_nonpos hle
        rw [Bool.not_false, if_pos rfl]
        omega
    | false =>
      obtain ⟨i, hi, hfar⟩ := value_of_not_isFinite hx hfinite
      have hsign : (zero false).less x = !x.isNegative := by
        rw [Bool.eq_iff_iff, hpos, hi]
        cases hneg : x.isNegative <;> simp [hneg] at hfar ⊢ <;> omega
      rw [if_pos (isInfinite_of_not_isFinite hx hfinite), hsign, Bool.not_not,
        toWord_of_not_isFinite hx hfinite]
      cases x.isNegative with
      | true => rfl
      | false =>
        -- A positive infinity becomes the largest word, which no length reaches.
        have hle : len ≤ 0xffffffffffffffff := by omega
        exact min_eq_right hle

end Builtin

/-! ## Places that have to be there -/

/-- What a number finds that is given for one of `len` places: the place that it is, and nothing
if it is another integer or none. -/
inductive Number.Finds (x : Number) (len : Nat) : Except RuntimeError (Fin len) → Prop
  | element (i : Fin len) : x.isFinite = true → x.value = (i : Nat) → Finds x len (.ok i)
  | outside (i : Int) : x.isFinite = true → x.value = i → i < 0 ∨ (len : Int) ≤ i →
      Finds x len (.error (.indexOutOfBounds x len))
  | fraction : (∀ i : Int, x.isFinite = true → x.value ≠ i) →
      Finds x len (.error (.typeError ("array index must be an integer, got " ++ x.text .plain)))

open Number in
/-- **A position is one of the places, or not a position.** -/
theorem Value.position_finds (x : Number) {len : Nat} (hlen : len ≤ 2 ^ 53) :
    ∃ found, x.Finds len found ∧ (Value.number x).position len = found.map (·.val) := by
  unfold position
  dsimp only
  cases hintegral : x.isIntegral with
  | false =>
    refine ⟨_, .fraction fun i hfinite hi => ?_, rfl⟩
    rw [isIntegral_iff.mpr ⟨hfinite, i, hi⟩] at hintegral
    cases hintegral
  | true =>
    obtain ⟨hfinite, i, hi⟩ := isIntegral_iff.mp hintegral
    obtain ⟨hfinite', hvalue⟩ := value_ofNat hlen
    have hnan := not_isNaN_of_isFinite hfinite
    have hbelow : x.less (zero false) = true ↔ i < 0 := by
      rw [less_iff hnan (not_isNaN_of_isFinite isFinite_zero), hi, value_zero]
      exact_mod_cast Iff.rfl
    have hinside : x.less (Number.ofNat len) = true ↔ i < len := by
      rw [less_iff hnan (not_isNaN_of_isFinite hfinite'), hi, hvalue]
      exact_mod_cast Iff.rfl
    have hnot : (x.less (zero false) || !x.less (Number.ofNat len)) = true ↔
        i < 0 ∨ (len : Int) ≤ i := by
      rw [Bool.or_eq_true, hbelow, Bool.not_eq_true', ← Bool.not_eq_true, hinside, not_lt]
    rw [Bool.not_true, if_neg Bool.false_ne_true]
    by_cases hout : i < 0 ∨ (len : Int) ≤ i
    · rw [if_pos (hnot.mpr hout)]
      exact ⟨_, .outside i hfinite hi hout, rfl⟩
    · rw [if_neg (mt hnot.mp hout)]
      obtain ⟨n, rfl⟩ := Int.eq_ofNat_of_zero_le (by omega : 0 ≤ i)
      have hword : x.toWord = n := by
        rw [toWord_of_isFinite hfinite, hi, towardZero_intCast]
        omega
      exact ⟨_, .element ⟨n, by omega⟩ hfinite (by exact_mod_cast hi), by rw [hword]; rfl⟩

/-! ## Operations -/

/-- A bound of a slice is a number, or it is left out or nil. -/
inductive IsBound (bounds : List Value) (i : Nat) : Option Number → Prop
  | missing : bounds[i]? = none → IsBound bounds i none
  | nil : bounds[i]? = some .nil → IsBound bounds i none
  | number (x : Number) : bounds[i]? = some (.number x) → IsBound bounds i (some x)

/-- Where a bound of a slice points to, and one that is left out. -/
def boundWithin (bound : Option Number) (len missing : Nat) : Nat :=
  bound.elim missing fun x => x.pointWithin (fromEnd len) len

theorem boundWithin_le (bound : Option Number) {len missing : Nat} (h : missing ≤ len) :
    boundWithin bound len missing ≤ len := by
  cases bound with
  | none => exact h
  | some x => exact x.pointWithin_le _ _

namespace Builtin

theorem sliceBound?_eq {bounds : List Value} {i len missing : Nat} {bound : Option Number}
    (hbound : IsBound bounds i bound) (hlen : len ≤ 2 ^ 53) :
    sliceBound? bounds i len missing = .ok (boundWithin bound len missing) := by
  unfold sliceBound?
  cases hbound with
  | missing h => rw [h]; rfl
  | nil h => rw [h]; rfl
  | number x h =>
    rw [h, boundWithin, Option.elim_some, ← sliceBound_eq x hlen]
    rfl

variable (hosts : Array HostFunction) (sink : SinkId) (h : Heap) (a : ArrayId)

/-- **A slice is cut out between two places of the array.** -/
theorem slice_call {bounds : List Value} {first last : Option Number}
    (hlen : (h.array a).size ≤ 2 ^ 53) (hcount : bounds.length ≤ 2)
    (hfirst : IsBound bounds 0 first) (hlast : IsBound bounds 1 last) {start stop : Nat}
    (hstop : boundWithin last (h.array a).size (h.array a).size = stop)
    (hstart : min (boundWithin first (h.array a).size 0) stop = start) :
    (slice.native sink).call hosts (.array a :: bounds) h =
      .ok (.array (h.newArray ((h.array a).extract start stop)).1)
        (h.newArray ((h.array a).extract start stop)).2 := by
  have hitems : (((h.array a).toList.drop start).take (stop - start)).toArray =
      (h.array a).extract start stop :=
    Array.toList_inj.mp
      (by rw [List.toList_toArray, Array.toList_extract, List.extract_eq_take_drop])
  change cutSlice (.array a :: bounds) h = _
  unfold cutSlice
  dsimp only
  rw [if_neg (by omega)]
  change (do
    let stop ← HeapM.ofExcept (sliceBound? bounds 1 (h.array a).size (h.array a).size)
    let start ← HeapM.ofExcept (sliceBound? bounds 0 (h.array a).size 0)
    giveArray (((h.array a).toList.drop (min start stop)).take (stop - min start stop)) :
      HeapM Value) h = _
  rw [sliceBound?_eq hfirst hlen, sliceBound?_eq hlast hlen, hstop]
  change giveArray (((h.array a).toList.drop (min (boundWithin first (h.array a).size 0) stop)).take
    (stop - min (boundWithin first (h.array a).size 0) stop)) h = _
  rw [hstart, ← hitems]
  rfl

theorem changeArray_eq (f : Array Value → Array Value) :
    changeArray a f h = .ok ⟨⟩ (h.setArray a (f (h.array a))) := by
  have hmodify : h.arrays.modify a f = h.arrays.setIfInBounds a (f (h.array a)) := by
    refine Array.ext (by simp) fun i hi _ => ?_
    rw [Array.size_modify] at hi
    rw [Array.getElem_modify, Array.getElem_setIfInBounds]
    split
    · rename_i heq
      subst heq
      rw [Heap.array, Array.getD_eq_getD_getElem?, Array.getElem?_eq_getElem hi, Option.getD_some]
    · rfl
  change EStateM.Result.ok PUnit.unit { h with arrays := h.arrays.modify a f } = _
  rw [hmodify]
  rfl

/-- **An element is inserted at a place of the array or at its end.** -/
theorem insert_call (x : Number) (v : Value) (hlen : (h.array a).size ≤ 2 ^ 53) :
    (insert.native sink).call hosts [.array a, .number x, v] h =
      .ok (.array a) (h.setArray a ((h.array a).insertIdx (x.pointWithin id (h.array a).size) v
        (x.pointWithin_le _ _))) := by
  have hinsert : (h.array a).insertIdxIfInBounds (insertionPoint x (h.array a).size) v =
      (h.array a).insertIdx (x.pointWithin id (h.array a).size) v (x.pointWithin_le _ _) := by
    rw [insertionPoint_eq x hlen, Array.insertIdxIfInBounds, dif_pos (x.pointWithin_le _ _)]
  rw [← hinsert]
  change (do
    changeArray a fun items => items.insertIdxIfInBounds (insertionPoint x items.size) v
    pure (.array a) : HeapM Value) h = _
  rw [bind_ok (changeArray_eq h a _)]
  rfl

/-- What an operation on a place gives and leaves, when it is raised where there is none. -/
def atPlace {len : Nat} (h : Heap) (found : Except RuntimeError (Fin len))
    (give : Fin len → Value) (leave : Fin len → Heap) : EStateM.Result Fault Heap Value :=
  match found with
  | .ok i => .ok (give i) (leave i)
  | .error e => .error (.raised e) h

/-- **An element is removed from the place that a number finds.** -/
theorem remove_call {x : Number} {found : Except RuntimeError (Fin (h.array a).size)}
    (hfound : (Value.number x).position (h.array a).size = found.map (·.val)) :
    (remove.native sink).call hosts [.array a, .number x] h =
      atPlace h found (fun i => (h.array a)[i]) fun i =>
        h.setArray a ((h.array a).eraseIdx i i.isLt) := by
  change (do
    let i ← HeapM.ofExcept ((Value.number x).position (h.array a).size)
    changeArray a (·.eraseIdxIfInBounds i)
    pure ((h.array a).getD i .nil) : HeapM Value) h = _
  rw [hfound]
  cases found with
  | error e => rfl
  | ok i =>
    have herase : (h.array a).eraseIdxIfInBounds i = (h.array a).eraseIdx i i.isLt := by
      rw [Array.eraseIdxIfInBounds, dif_pos i.isLt]
    change (do
      changeArray a (·.eraseIdxIfInBounds i)
      pure ((h.array a).getD i .nil) : HeapM Value) h = _
    rw [bind_ok (changeArray_eq h a _), herase, Array.getD_eq_getD_getElem?,
      Array.getElem?_eq_getElem i.isLt]
    rfl

end Builtin

namespace Heap

variable (h : Heap) (a : ArrayId) (s : String) {x : Number}

/-- **An element is read and written at the place that a number finds.** -/
theorem index_array {found : Except RuntimeError (Fin (h.array a).size)}
    (hfound : (Value.number x).position (h.array a).size = found.map (·.val)) :
    h.index (.array a) (.number x) = found.map (fun i => (h.array a)[i]) ∧
      ∀ v, h.setIndex (.array a) (.number x) v =
        found.map fun i : Fin _ => h.setArray a ((h.array a).set i v i.isLt) := by
  unfold index setIndex
  dsimp only
  rw [hfound]
  cases found with
  | error e => exact ⟨rfl, fun _ => rfl⟩
  | ok i =>
    constructor
    · change Except.ok ((h.array a).getD i .nil) = .ok (h.array a)[i]
      rw [Array.getD_eq_getD_getElem?, Array.getElem?_eq_getElem i.isLt]
      rfl
    · intro v
      change Except.ok (h.setArray a ((h.array a).setIfInBounds i v)) = .ok _
      rw [Array.setIfInBounds, dif_pos i.isLt]

/-- **A character is read at the place that a number finds.** -/
theorem index_string {found : Except RuntimeError (Fin s.toList.length)}
    (hfound : (Value.number x).position s.toList.length = found.map (·.val)) :
    h.index (.string s) (.number x) = found.map fun i => .string (s.toList[i]).toString := by
  unfold index
  dsimp only
  rw [← String.length_toList, hfound]
  cases found with
  | error e => rfl
  | ok i =>
    have hget : s.toList[(i : Nat)]? = some s.toList[i] := List.getElem?_eq_getElem i.isLt
    simp only [Except.map, bind, Except.bind, hget]

end Heap

/-- **A part of a string goes from one place to another that is not before it.** -/
theorem Value.substring_eq (s : String) {first last : Number}
    {start stop : Except RuntimeError (Fin (s.toList.length + 1))}
    (hstart : (Value.number first).position (s.toList.length + 1) = start.map (·.val))
    (hstop : (Value.number last).position (s.toList.length + 1) = stop.map (·.val)) :
    Value.substring (.string s) (.number first) (.number last) =
      start.bind fun start => stop.bind fun stop =>
        if stop < start then .error (.indexOutOfBounds (.ofNat stop) s.toList.length)
        else .ok (.string (String.ofList (s.toList.extract start stop))) := by
  unfold substring
  dsimp only
  rw [hstart, hstop]
  cases start with
  | error e => rfl
  | ok start =>
    cases stop with
    | error e => rfl
    | ok stop =>
      rfl

/-- **Every number is a safe position.** In arrays and strings of less than `2 ^ 53` elements, a
slice is what lies between the places its bounds point to, the first one no further than the last,
and an element is inserted where the number points to; a NaN points to the beginning. An element or
character is read, written or removed at the integer that is its place, and so are the ends of a
part of a string. All other numbers are errors, and a number that is not an integer is an error of
its type. -/
theorem positions_in_range (hosts : Array HostFunction) (sink : SinkId) (h : Heap) :
    (∀ a : ArrayId, (h.array a).size < 2 ^ 53 →
      (∀ (bounds : List Value) (first last : Option Number), bounds.length ≤ 2 →
        IsBound bounds 0 first → IsBound bounds 1 last →
        ∃ start stop, start ≤ stop ∧ stop ≤ (h.array a).size ∧
          stop = boundWithin last (h.array a).size (h.array a).size ∧
          start = min (boundWithin first (h.array a).size 0) stop ∧
          (Builtin.slice.native sink).call hosts (.array a :: bounds) h =
            .ok (.array (h.newArray ((h.array a).extract start stop)).1)
              (h.newArray ((h.array a).extract start stop)).2) ∧
      (∀ (x : Number) (v : Value), ∃ hplace : x.pointWithin id (h.array a).size ≤ (h.array a).size,
        (Builtin.insert.native sink).call hosts [.array a, .number x, v] h =
          .ok (.array a) (h.setArray a
            ((h.array a).insertIdx (x.pointWithin id (h.array a).size) v hplace))) ∧
      ∀ x : Number, ∃ found, x.Finds (h.array a).size found ∧
        h.index (.array a) (.number x) = found.map (fun i => (h.array a)[i]) ∧
        (∀ v, h.setIndex (.array a) (.number x) v =
          found.map fun i : Fin _ => h.setArray a ((h.array a).set i v i.isLt)) ∧
        (Builtin.remove.native sink).call hosts [.array a, .number x] h =
          Builtin.atPlace h found (fun i => (h.array a)[i]) fun i =>
            h.setArray a ((h.array a).eraseIdx i i.isLt)) ∧
    ∀ s : String, s.toList.length < 2 ^ 53 →
      (∀ x : Number, ∃ found, x.Finds s.toList.length found ∧
        h.index (.string s) (.number x) = found.map fun i => .string (s.toList[i]).toString) ∧
      ∀ first last : Number, ∃ start stop, first.Finds (s.toList.length + 1) start ∧
        last.Finds (s.toList.length + 1) stop ∧
        Value.substring (.string s) (.number first) (.number last) =
          start.bind fun start => stop.bind fun stop =>
            if stop < start then .error (.indexOutOfBounds (.ofNat stop) s.toList.length)
            else .ok (.string (String.ofList (s.toList.extract start stop))) := by
  constructor
  · intro a hlen
    refine ⟨fun bounds first last hcount hfirst hlast => ?_, fun x v => ?_, fun x => ?_⟩
    · exact ⟨_, _, min_le_right _ _, boundWithin_le last le_rfl, rfl, rfl,
        Builtin.slice_call hosts sink h a hlen.le hcount hfirst hlast rfl rfl⟩
    · exact ⟨x.pointWithin_le _ _, Builtin.insert_call hosts sink h a x v hlen.le⟩
    · obtain ⟨found, hfinds, hfound⟩ := Value.position_finds x hlen.le
      obtain ⟨hread, hwrite⟩ := h.index_array a hfound
      exact ⟨found, hfinds, hread, hwrite, Builtin.remove_call hosts sink h a hfound⟩
  · intro s hlen
    refine ⟨fun x => ?_, fun first last => ?_⟩
    · obtain ⟨found, hfinds, hfound⟩ := Value.position_finds x hlen.le
      exact ⟨found, hfinds, h.index_string s hfound⟩
    · obtain ⟨start, hstart, hfrom⟩ := Value.position_finds first (Nat.succ_le_of_lt hlen)
      obtain ⟨stop, hstop, hto⟩ := Value.position_finds last (Nat.succ_le_of_lt hlen)
      exact ⟨start, stop, hstart, hstop, Value.substring_eq s hfrom hto⟩

/-- Four values from a NaN up to whatever there is, an infinity too many, and half a character. -/
theorem medley_positions :
    (medley.array 0).size < 2 ^ 53 ∧ "ab".toList.length < 2 ^ 53 ∧
    (∃ start stop, start ≤ stop ∧ stop ≤ 4 ∧
      (Builtin.slice.native 0).call #[] [.array 0, .number .nan, .nil] medley =
        .ok (.array 1) (medley.newArray ((medley.array 0).extract start stop)).2) ∧
    ∃ found, (Number.ofRatio false 1 2).Finds 2 found ∧
      medley.index (.string "ab") (.number (.ofRatio false 1 2)) =
        found.map fun i => .string ("ab".toList[i]).toString := by
  obtain ⟨harrays, hstrings⟩ := positions_in_range #[] 0 medley
  obtain ⟨hslice, -, -⟩ := harrays 0 (by decide)
  obtain ⟨start, stop, hle, hle', -, -, hcall⟩ :=
    hslice [.number .nan, .nil] (some .nan) none (by decide) (.number .nan rfl) (.nil rfl)
  exact ⟨by decide, by decide, ⟨start, stop, hle, hle', hcall⟩,
    (hstrings "ab" (by decide)).1 (.ofRatio false 1 2)⟩

end TaskVm
