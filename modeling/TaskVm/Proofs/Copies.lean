import TaskVm.Native.Builtins
import TaskVm.Proofs.Bisimilarity
import TaskVm.Proofs.Documents
import Mathlib.Data.List.Forall2

/-!
# Copies

What is written as JSON and read again is a copy: a value on new collections that has the same
build, with the keys of maps in the same order, and that is equal to the first. Sharing is lost,
because an array that is reached in two ways is written twice, and equality does not ask for it. Of
a number only the sign of zero may be lost.

A value is written under a limit that grows with the heap and not with the value. It is never
reached: the collections around a value that is data are all different, so that there are no more of
them than there are collections.
-/

namespace TaskVm

/-! ## Numbers -/

namespace Number

variable {x : Number} {n : Int}

theorem equal_self (hx : x.isFinite = true) : x.equal x = true := by
  have hlt : x.magnitude < infinityMagnitude := of_decide_eq_true hx
  have hnan : x.isNaN = false := decide_eq_false (Nat.lt_asymm hlt)
  exact equal_iff.mpr ⟨hnan, hnan, rfl⟩

/-- A number without a fraction is equal to its integer. -/
theorem equal_ofInt (hx : x.isIntegral = true) (hn : x.truncate? = some n) :
    x.equal (ofInt n) = true := by
  obtain heq | ⟨hzero, hx⟩ := ofInt_of_truncate? hx hn
  · rw [heq]
    exact equal_self (isFinite_of_isIntegral hx)
  · rw [hzero, ← hx]
    cases x.isNegative <;> decide

/-- A number becomes an integer that fits a word or a finite float. -/
theorem ofNumber_cases (hx : x.isFinite = true) :
    (∃ n, Json.ofNumber x = .integer n ∧ Json.minInteger ≤ n ∧ n ≤ Json.maxInteger ∧
      x.equal (ofInt n) = true) ∨ Json.ofNumber x = .float x := by
  unfold Json.ofNumber
  split
  · rename_i n hint hn
    obtain ⟨hintegral, hsmall⟩ := Bool.and_eq_true_iff.mp hint
    refine .inl ⟨n, rfl, ?_, ?_, equal_ofInt hintegral hn⟩ <;>
      · have hlt := of_decide_eq_true hsmall
        rw [truncate?, if_pos hx] at hn
        cases hn
        simp only [Json.minInteger, Json.maxInteger]
        split <;> omega
  · exact .inr (if_pos hx)

end Number

/-! ## Ordered maps -/

namespace OrderedMap

variable {α : Type}

/-- Entries with different keys stay as they are listed. -/
theorem toList_ofList {entries : List (String × α)} (hnodup : (entries.map (·.1)).Nodup) :
    (ofList entries).toList = entries := by
  induction entries using List.reverseRecOn with
  | nil => rfl
  | append_singleton entries e ih =>
    rw [List.map_append, List.nodup_append] at hnodup
    obtain ⟨hnodup, -, hnew⟩ := hnodup
    have hlist := ih hnodup
    have hnone : (ofList entries).place? e.1 = none := by
      by_contra hsome
      have hkey := (mem_keys (lawful_ofList entries)).mpr (Option.isSome_iff_ne_none.mpr hsome)
      rw [keys, hlist] at hkey
      exact hnew e.1 hkey e.1 (by simp) rfl
    have hinsert : ofList (entries ++ [e]) = (ofList entries).insert e.1 e.2 := List.foldl_append
    rw [hinsert, toList, entries_insert_new hnone, Array.toList_push]
    exact congrArg (· ++ [e]) hlist

theorem at?_eq_some {m : OrderedMap α} {k : Nat} {v : α} :
    m.at? k = some v ↔ ∃ e, m.toList[k]? = some e ∧ e.2 = v := by
  rw [OrderedMap.at?, Option.map_eq_some_iff, toList, Array.getElem?_toList]

/-- A key's place is the place among the keys. -/
theorem place?_iff_keys {m : OrderedMap α} (hm : m.Lawful) {key : String} {k : Nat} :
    m.place? key = some k ↔ m.keys[k]? = some key := by
  rw [hm key k, keys, toList, List.getElem?_map, Array.getElem?_toList]

end OrderedMap

namespace Heap

open Relation

variable {h h' g : Heap} {v v' a b : Value} {n : Nat}

/-! ## More collections -/

/-- What there was is there as it was, and perhaps more. -/
structure Adds (h h' : Heap) : Prop where
  array : ∀ i < h.arrays.size, i < h'.arrays.size ∧ h'.array i = h.array i
  map : ∀ i < h.maps.size, i < h'.maps.size ∧ h'.map i = h.map i

namespace Adds

theorem refl (h : Heap) : h.Adds h where
  array _ hi := ⟨hi, rfl⟩
  map _ hi := ⟨hi, rfl⟩

theorem trans {a b c : Heap} (hab : a.Adds b) (hbc : b.Adds c) : a.Adds c where
  array i hi := by
    obtain ⟨hb, heq⟩ := hab.array i hi
    obtain ⟨hc, heq'⟩ := hbc.array i hb
    exact ⟨hc, heq'.trans heq⟩
  map i hi := by
    obtain ⟨hb, heq⟩ := hab.map i hi
    obtain ⟨hc, heq'⟩ := hbc.map i hb
    exact ⟨hc, heq'.trans heq⟩

theorem newArray (h : Heap) (items : Array Value) : h.Adds (h.newArray items).2 where
  array i hi := by
    refine ⟨by simpa [Heap.newArray] using Nat.lt_succ_of_lt hi, ?_⟩
    simp [Heap.array, Heap.newArray, Array.getD_eq_getD_getElem?, Array.getElem?_push_lt hi,
      Array.getElem?_eq_getElem hi]
  map i hi := ⟨hi, rfl⟩

theorem newMap (h : Heap) (m : OrderedMap Value) : h.Adds (h.newMap m).2 where
  array i hi := ⟨hi, rfl⟩
  map i hi := by
    refine ⟨by simpa [Heap.newMap] using Nat.lt_succ_of_lt hi, ?_⟩
    simp [Heap.map, Heap.newMap, Array.getD_eq_getD_getElem?, Array.getElem?_push_lt hi,
      Array.getElem?_eq_getElem hi]

end Adds

/-! ## Data -/

/-- What JSON can express: nil, booleans, finite numbers and strings, and the arrays and maps made
of them, at most `n` of which are inside one another. -/
inductive Data (h : Heap) : Nat → Value → Prop where
  | nil {n : Nat} : h.Data n .nil
  | bool {n : Nat} (b : Bool) : h.Data n (.bool b)
  | number {n : Nat} {x : Number} (hx : x.isFinite = true) : h.Data n (.number x)
  | string {n : Nat} (s : String) : h.Data n (.string s)
  | array {n : Nat} {i : ArrayId} (hi : i < h.arrays.size)
      (hparts : ∀ v ∈ (h.array i).toList, h.Data n v) : h.Data (n + 1) (.array i)
  | map {n : Nat} {i : MapId} (hi : i < h.maps.size)
      (hparts : ∀ e ∈ (h.map i).toList, h.Data n e.2) : h.Data (n + 1) (.map i)

instance decidableData (h : Heap) : ∀ n v, Decidable (h.Data n v)
  | _, .nil => isTrue .nil
  | _, .bool b => isTrue (.bool b)
  | _, .string s => isTrue (.string s)
  | _, .number x =>
    decidable_of_iff (x.isFinite = true) ⟨.number, fun hd => by cases hd; assumption⟩
  | 0, .array _ => isFalse nofun
  | 0, .map _ => isFalse nofun
  | n + 1, .array i =>
    have := decidableData h n
    decidable_of_iff (i < h.arrays.size ∧ ∀ v ∈ (h.array i).toList, h.Data n v)
      ⟨fun hd => .array hd.1 hd.2, fun hd => by cases hd; exact ⟨‹_›, ‹_›⟩⟩
  | n + 1, .map i =>
    have := fun e : String × Value => decidableData h n e.2
    decidable_of_iff (i < h.maps.size ∧ ∀ e ∈ (h.map i).toList, h.Data n e.2)
      ⟨fun hd => .map hd.1 hd.2, fun hd => by cases hd; exact ⟨‹_›, ‹_›⟩⟩
  | _, .function _ | _, .closure _ | _, .native _ | _, .boundMethod _ _ | _, .channel _
  | _, .task _ | _, .error _ => isFalse nofun

/-- An element of an array, or a value in a map. -/
inductive PartOf (h : Heap) : Value → Value → Prop where
  | element {i : ArrayId} {v : Value} (hv : v ∈ (h.array i).toList) : h.PartOf v (.array i)
  | entry {i : MapId} {e : String × Value} (he : e ∈ (h.map i).toList) : h.PartOf e.2 (.map i)

theorem Data.acc (hd : h.Data n v) : Acc h.PartOf v := by
  induction hd with
  | nil | bool | number | string => exact ⟨_, nofun⟩
  | array _ _ ih =>
    refine ⟨_, fun w hw => ?_⟩
    cases hw with
    | element hw => exact ih w hw
  | map _ _ ih =>
    refine ⟨_, fun w hw => ?_⟩
    cases hw with
    | entry he => exact ih _ he

/-- Data is not inside itself. -/
theorem Data.acyclic (hd : h.Data n v) : ¬ TransGen h.PartOf v v := by
  have hacc := hd.acc.transGen
  clear hd
  induction hacc with
  | intro v _ ih => exact fun hself => ih v hself hself

/-! ## Copies -/

/-- Two values of the same build: equal where they have no parts, arrays of as many copies, and
maps of copies with the same keys in the same order. -/
inductive Copy (h : Heap) : Value → Value → Prop where
  | nil : h.Copy .nil .nil
  | bool (b : Bool) : h.Copy (.bool b) (.bool b)
  | number {x y : Number} (hxy : x.equal y = true) : h.Copy (.number x) (.number y)
  | string (s : String) : h.Copy (.string s) (.string s)
  | array {i j : ArrayId} (hi : i < h.arrays.size) (hj : j < h.arrays.size)
      (hsize : (h.array i).size = (h.array j).size)
      (hparts : ∀ (k : Nat) x y, (h.array i)[k]? = some x → (h.array j)[k]? = some y →
        h.Copy x y) : h.Copy (.array i) (.array j)
  | map {i j : MapId} (hi : i < h.maps.size) (hj : j < h.maps.size)
      (hkeys : (h.map i).keys = (h.map j).keys)
      (hparts : ∀ (k : Nat) x y, (h.map i).at? k = some x → (h.map j).at? k = some y →
        h.Copy x y) : h.Copy (.map i) (.map j)

theorem Copy.mono (ha : h.Adds h') (hc : h.Copy a b) : h'.Copy a b := by
  induction hc with
  | nil => exact .nil
  | bool b => exact .bool b
  | number hxy => exact .number hxy
  | string s => exact .string s
  | array hi hj hsize _ ih =>
    obtain ⟨hi', hieq⟩ := ha.array _ hi
    obtain ⟨hj', hjeq⟩ := ha.array _ hj
    exact .array hi' hj' (by rwa [hieq, hjeq]) (by rwa [hieq, hjeq])
  | map hi hj hkeys _ ih =>
    obtain ⟨hi', hieq⟩ := ha.map _ hi
    obtain ⟨hj', hjeq⟩ := ha.map _ hj
    exact .map hi' hj' (by rwa [hieq, hjeq]) (by rwa [hieq, hjeq])

theorem Copy.symm (hc : h.Copy a b) : h.Copy b a := by
  induction hc with
  | nil => exact .nil
  | bool b => exact .bool b
  | number hxy => exact .number (Number.equal_symm hxy)
  | string s => exact .string s
  | array hi hj hsize _ ih => exact .array hj hi hsize.symm fun k x y hx hy => ih k y x hy hx
  | map hi hj hkeys _ ih => exact .map hj hi hkeys.symm fun k x y hx hy => ih k y x hy hx

/-- Copies of maps have copies under their keys, which are at the same places in both. -/
theorem Copy.get? {i j : MapId} (hlawful : ∀ i, (h.map i).Lawful) (hc : h.Copy (.map i) (.map j))
    {key : String} {x y : Value} (hx : (h.map i).get? key = some x)
    (hy : (h.map j).get? key = some y) : h.Copy x y := by
  cases hc with
  | map _ _ hkeys hparts =>
    obtain ⟨k, hplace, hat⟩ := Option.bind_eq_some_iff.mp hx
    have hplace' : (h.map j).place? key = some k := by
      rw [OrderedMap.place?_iff_keys (hlawful j), ← hkeys,
        ← OrderedMap.place?_iff_keys (hlawful i), hplace]
    rw [OrderedMap.get?_eq hplace'] at hy
    exact hparts k x y hat hy

theorem copy_bisimulation (hlawful : ∀ i, (h.map i).Lawful) : h.Bisimulation h.Copy := by
  intro a b hab
  cases hab with
  | nil => exact .scalar .nil
  | bool b => exact .scalar (.bool b)
  | number hxy => exact .scalar (.number hxy)
  | string s => exact .scalar (.string s)
  | array _ _ hsize hparts => exact .array hsize hparts
  | @map i j hi hj hkeys hparts =>
    refine .map (fun key => ?_) fun key x y => Copy.get? hlawful (.map hi hj hkeys hparts)
    rw [Bool.eq_iff_iff, ← OrderedMap.mem_keys (hlawful i), ← OrderedMap.mem_keys (hlawful j),
      hkeys]

/-- A comparison of copies comes to copies only, and so to no functions. -/
theorem Copy.equal?_ends (hlawful : ∀ i, (h.map i).Lawful) (hc : h.Copy a b) :
    ∃ same, h.equal? a b = some same := by
  refine equal?_ends_of (Q := h.Copy) one_pos (Nat.le_add_left 1 _) ?_ nofun hc
  -- What is compared next is at the same place of two arrays, or under the same key of two maps.
  rintro a b x y hc hbeside
  cases hbeside with
  | element _ _ hxy =>
    obtain ⟨k, z, hx, hz, hy⟩ := mem_elementPairs.mp hxy
    obtain rfl : y = z := Option.some.inj hy
    cases hc with
    | array _ _ _ hparts => exact hparts k x y hx hz
  | @entry i _ _ _ _ _ hxy =>
    obtain ⟨key, hx, hy⟩ := (mem_entryPairs (hlawful i)).mp hxy
    exact hc.get? hlawful hx hy.symm
  | receiver => cases hc

/-- **Copies are equal.** -/
theorem Copy.equal? (hlawful : ∀ i, (h.map i).Lawful) (hc : h.Copy a b) :
    h.equal? a b = some true := by
  obtain ⟨same, hsame⟩ := hc.equal?_ends hlawful
  obtain ⟨r, hr, rfl⟩ := Option.map_eq_some_iff.mp hsame
  rw [hsame, (copy_bisimulation hlawful).equalWithin hlawful hc hr]

/-! ## Writing -/

/-- The collections that a value is inside of. None of them is listed twice. -/
structure Around (h : Heap) (around : List Value) (v : Value) : Prop where
  nodup : around.Nodup
  stored : ∀ u ∈ around, (∃ i < h.arrays.size, u = .array i) ∨ ∃ i < h.maps.size, u = .map i
  inside : ∀ u ∈ around, TransGen h.PartOf v u

namespace Around

variable {around : List Value}

theorem nil (h : Heap) (v : Value) : h.Around [] v := ⟨List.nodup_nil, nofun, nofun⟩

/-- There are no more of them than there are collections. -/
theorem length_le (ha : h.Around around v) : around.length ≤ h.collections := by
  have hsub : around ⊆
      (List.range h.arrays.size).map .array ++ (List.range h.maps.size).map .map := by
    intro u hu
    rw [List.mem_append, List.mem_map, List.mem_map]
    obtain ⟨i, hi, rfl⟩ | ⟨i, hi, rfl⟩ := ha.stored u hu
    · exact .inl ⟨i, List.mem_range.mpr hi, rfl⟩
    · exact .inr ⟨i, List.mem_range.mpr hi, rfl⟩
  have hle := (ha.nodup.subperm hsub).length_le
  simpa [collections] using hle

theorem not_mem (ha : h.Around around v) (hd : h.Data n v) : v ∉ around :=
  fun hv => hd.acyclic (ha.inside v hv)

/-- One step further in. -/
theorem enter (ha : h.Around around v) (hd : h.Data n v)
    (hv : (∃ i < h.arrays.size, v = .array i) ∨ ∃ i < h.maps.size, v = .map i) {w : Value}
    (hw : h.PartOf w v) : h.Around (v :: around) w where
  nodup := List.nodup_cons.mpr ⟨ha.not_mem hd, ha.nodup⟩
  stored u hu := by
    obtain rfl | hu := List.mem_cons.mp hu
    · exact hv
    · exact ha.stored u hu
  inside u hu := by
    obtain rfl | hu := List.mem_cons.mp hu
    · exact .single hw
    · exact .head hw (ha.inside u hu)

end Around

/-! ## Reading -/

/-- A copy of a value has been made on a heap, and what was there has been left as it was. -/
structure Restores (g : Heap) (v : Value) (r : Value × Heap) : Prop where
  adds : g.Adds r.2
  lawful : ∀ i, (r.2.map i).Lawful
  copy : r.2.Copy v r.1

/-- A value's document: what is written for the value wherever it is, and what is read as a copy on
any heap that has the value. -/
structure Transcribes (h : Heap) (n : Nat) (v : Value) (j : Json) : Prop where
  fits : j.Fits n
  written : ∀ {limit : Nat} {around : List Value}, h.Around around v →
    h.collections + 2 ≤ limit + around.length → h.jsonWithin limit around v = .ok j
  restored : ∀ {g : Heap}, h.Adds g → (∀ i, (g.map i).Lawful) → g.Restores v (g.ofJson j)

/-- A partner for each of some things, for all of them together. -/
theorem exists_forall₂ {α β : Type} {R : α → β → Prop} : ∀ {as : List α},
    (∀ a ∈ as, ∃ b, R a b) → ∃ bs, List.Forall₂ R as bs
  | [], _ => ⟨[], .nil⟩
  | a :: as, h => by
    obtain ⟨b, hb⟩ := h a List.mem_cons_self
    obtain ⟨bs, hbs⟩ := exists_forall₂ fun a ha => h a (List.mem_cons_of_mem _ ha)
    exact ⟨b :: bs, .cons hb hbs⟩

/-- What is done with each of some things can be done with all of them. -/
theorem mapM_eq_ok {α β ε : Type} {f : α → Except ε β} {as : List α} {bs : List β}
    (h : List.Forall₂ (fun a b => f a = .ok b) as bs) : as.mapM f = .ok bs := by
  induction h with
  | nil => rfl
  | cons hab _ ih =>
    rw [List.mapM_cons, hab, ih]
    rfl

/-- What is at the same place in two lists. -/
theorem getElem?_of_forall₂ {α β : Type} {R : α → β → Prop} {as : List α} {bs : List β}
    (h : List.Forall₂ R as bs) {k : Nat} {a : α} {b : β} (ha : as[k]? = some a)
    (hb : bs[k]? = some b) : R a b := by
  obtain ⟨hk, rfl⟩ := List.getElem?_eq_some_iff.mp ha
  obtain ⟨hk', rfl⟩ := List.getElem?_eq_some_iff.mp hb
  exact h.get hk hk'

/-- Everything on the right stands beside something. -/
theorem exists_left {α β : Type} {R : α → β → Prop} {as : List α} {bs : List β}
    (h : List.Forall₂ R as bs) {b : β} (hb : b ∈ bs) : ∃ a ∈ as, R a b := by
  obtain ⟨⟨k, hk⟩, rfl⟩ := List.mem_iff_get.mp hb
  have hk' : k < as.length := h.length_eq ▸ hk
  exact ⟨as.get ⟨k, hk'⟩, List.get_mem _ _, h.get hk' hk⟩

theorem keys_of_forall₂ {α β : Type} {R : α → β → Prop} {es : List (String × α)}
    {es' : List (String × β)} (h : List.Forall₂ (fun e e' => e'.1 = e.1 ∧ R e.2 e'.2) es es') :
    es'.map (·.1) = es.map (·.1) := by
  induction h with
  | nil => rfl
  | cons he _ ih => rw [List.map_cons, List.map_cons, he.1, ih]

theorem lawful_newMap (hlawful : ∀ i, (h.map i).Lawful) {m : OrderedMap Value} (hm : m.Lawful)
    (i : MapId) : ((h.newMap m).2.map i).Lawful := by
  simp only [map, newMap, Array.getD_eq_getD_getElem?, Array.getElem?_push]
  split
  · exact hm
  · simpa [map, Array.getD_eq_getD_getElem?] using hlawful i

/-- The elements of an array are read one after the other. -/
theorem ofJsonItems_copies {vs : List Value} {js : List Json}
    (hvs : List.Forall₂ (h.Transcribes n) vs js) : ∀ {g : Heap}, h.Adds g →
    (∀ i, (g.map i).Lawful) → g.Adds (g.ofJsonItems js).2 ∧
      (∀ i, ((g.ofJsonItems js).2.map i).Lawful) ∧
      List.Forall₂ (g.ofJsonItems js).2.Copy vs (g.ofJsonItems js).1 := by
  induction hvs with
  | nil => exact fun _ hlawful => ⟨.refl _, hlawful, .nil⟩
  | @cons v j vs js hv _ ih =>
    intro g ha hlawful
    have hfirst := hv.restored ha hlawful
    obtain ⟨hadds, hlawful', hcopies⟩ := ih (ha.trans hfirst.adds) hfirst.lawful
    exact ⟨hfirst.adds.trans hadds, hlawful', .cons (hfirst.copy.mono hadds) hcopies⟩

/-- So are the members of an object, under the same keys. -/
theorem ofJsonMembers_copies {es : List (String × Value)} {ms : List (String × Json)}
    (hes : List.Forall₂ (fun e m => m.1 = e.1 ∧ h.Transcribes n e.2 m.2) es ms) :
    ∀ {g : Heap}, h.Adds g → (∀ i, (g.map i).Lawful) → g.Adds (g.ofJsonMembers ms).2 ∧
      (∀ i, ((g.ofJsonMembers ms).2.map i).Lawful) ∧
      List.Forall₂ (fun e e' => e'.1 = e.1 ∧ (g.ofJsonMembers ms).2.Copy e.2 e'.2) es
        (g.ofJsonMembers ms).1 := by
  induction hes with
  | nil => exact fun _ hlawful => ⟨.refl _, hlawful, .nil⟩
  | @cons e m es ms he _ ih =>
    intro g ha hlawful
    obtain ⟨hkey, hv⟩ := he
    have hfirst := hv.restored ha hlawful
    obtain ⟨hadds, hlawful', hcopies⟩ := ih (ha.trans hfirst.adds) hfirst.lawful
    exact ⟨hfirst.adds.trans hadds, hlawful', .cons ⟨hkey, hfirst.copy.mono hadds⟩ hcopies⟩

/-- The limit is not reached. -/
theorem limit_eq {limit : Nat} {around : List Value} (ha : h.Around around v)
    (hlimit : h.collections + 2 ≤ limit + around.length) : ∃ k, limit = k + 1 :=
  ⟨limit - 1, by have := ha.length_le; omega⟩

/-- An array is written with its elements, and read into a new one. -/
theorem transcribes_array {i : ArrayId} {js : List Json} (hd : h.Data (n + 1) (.array i))
    (hi : i < h.arrays.size) (hjs : List.Forall₂ (h.Transcribes n) (h.array i).toList js) :
    h.Transcribes (n + 1) (.array i) (.array js) where
  fits := .array fun j hj => by
    obtain ⟨v, -, hv⟩ := exists_left hjs hj
    exact hv.fits
  written {limit around} ha hlimit := by
    obtain ⟨limit, rfl⟩ := limit_eq ha hlimit
    have hitems : (h.array i).toList.mapM (h.jsonWithin limit (.array i :: around)) = .ok js := by
      refine mapM_eq_ok (((List.forall₂_and_left _ _).mpr ⟨fun _ hv => hv, hjs⟩).imp ?_)
      rintro v j ⟨hv, hj⟩
      -- The limit is one less, and there is one more collection around.
      refine hj.written (ha.enter hd (.inl ⟨i, hi, rfl⟩) (.element hv)) ?_
      rw [List.length_cons]
      omega
    unfold jsonWithin
    dsimp only
    rw [if_neg (by simpa using ha.not_mem hd), hitems]
    rfl
  restored {g} ha hlawful := by
    obtain ⟨hadds, hlawful', hcopies⟩ := ofJsonItems_copies hjs ha hlawful
    obtain ⟨⟨vs, g'⟩, hread⟩ : ∃ r, g.ofJsonItems js = r := ⟨_, rfl⟩
    have hmade : g.ofJson (.array js) =
        (.array (g'.newArray vs.toArray).1, (g'.newArray vs.toArray).2) := by
      rw [ofJson, hread]
    rw [hread] at hadds hlawful' hcopies
    rw [hmade]
    have hnew := Adds.newArray g' vs.toArray
    obtain ⟨hi', heq⟩ := (ha.trans (hadds.trans hnew)).array i hi
    refine ⟨hadds.trans hnew, hlawful', .array hi' (by simp [newArray]) ?_ fun k x y hx hy => ?_⟩
    · rw [heq]
      exact (array_newArray g' vs.toArray).symm ▸ by simpa using hcopies.length_eq
    · rw [heq, ← Array.getElem?_toList] at hx
      rw [array_newArray, List.getElem?_toArray] at hy
      exact (getElem?_of_forall₂ hcopies hx hy).mono hnew

/-- A map is written with its keys and values, and read into a new one. -/
theorem transcribes_map {i : MapId} {ms : List (String × Json)} (hlawful : (h.map i).Lawful)
    (hd : h.Data (n + 1) (.map i)) (hi : i < h.maps.size)
    (hms : List.Forall₂ (fun e m => m.1 = e.1 ∧ h.Transcribes n e.2 m.2) (h.map i).toList ms) :
    h.Transcribes (n + 1) (.map i) (.object ms) where
  fits := .object fun m hm => by
    obtain ⟨e, -, -, he⟩ := exists_left hms hm
    exact he.fits
  written {limit around} ha hlimit := by
    obtain ⟨limit, rfl⟩ := limit_eq ha hlimit
    have hentries : ((h.map i).toList.mapM fun e =>
        (h.jsonWithin limit (.map i :: around) e.2).map (e.1, ·)) = .ok ms := by
      refine mapM_eq_ok (((List.forall₂_and_left _ _).mpr ⟨fun _ he => he, hms⟩).imp ?_)
      rintro e ⟨key, j⟩ ⟨he, rfl, hj⟩
      have hlimit' : h.collections + 2 ≤ limit + (Value.map i :: around).length := by
        rw [List.length_cons]
        omega
      rw [hj.written (ha.enter hd (.inr ⟨i, hi, rfl⟩) (.entry he)) hlimit']
      rfl
    unfold jsonWithin
    dsimp only
    rw [if_neg (by simpa using ha.not_mem hd), hentries]
    rfl
  restored {g} ha hlawful' := by
    obtain ⟨hadds, hlawful', hcopies⟩ := ofJsonMembers_copies hms ha hlawful'
    obtain ⟨⟨es, g'⟩, hread⟩ : ∃ r, g.ofJsonMembers ms = r := ⟨_, rfl⟩
    have hmade : g.ofJson (.object ms) =
        (.map (g'.newMap (.ofList es)).1, (g'.newMap (.ofList es)).2) := by
      rw [ofJson, hread]
    rw [hread] at hadds hlawful' hcopies
    have hkeys : es.map (·.1) = (h.map i).keys := keys_of_forall₂ hcopies
    -- No key comes twice, so that no entry replaces another.
    have hlist : (OrderedMap.ofList es).toList = es :=
      OrderedMap.toList_ofList (hkeys ▸ OrderedMap.nodup_keys hlawful)
    rw [hmade]
    have hnew := Adds.newMap g' (.ofList es)
    obtain ⟨hi', heq⟩ := (ha.trans (hadds.trans hnew)).map i hi
    refine ⟨hadds.trans hnew, lawful_newMap hlawful' (OrderedMap.lawful_ofList es),
      .map hi' (by simp [newMap]) ?_ fun k x y hx hy => ?_⟩
    · rw [heq]
      have hnewKeys : (OrderedMap.ofList es).keys = (h.map i).keys := by
        rw [OrderedMap.keys, hlist, hkeys]
      exact (hnewKeys ▸ congrArg OrderedMap.keys (map_newMap g' (.ofList es))).symm
    · rw [heq] at hx
      have hy' : (OrderedMap.ofList es).at? k = some y := map_newMap g' (.ofList es) ▸ hy
      obtain ⟨e, he, rfl⟩ := OrderedMap.at?_eq_some.mp hx
      obtain ⟨e', he', rfl⟩ := OrderedMap.at?_eq_some.mp hy'
      rw [hlist] at he'
      exact (getElem?_of_forall₂ hcopies he he').2.mono hnew

/-- **Data has a document**, by induction on how deep it is nested. -/
theorem Data.transcribes (hlawful : ∀ i, (h.map i).Lawful) (hd : h.Data n v) :
    ∃ j, h.Transcribes n v j := by
  induction hd with
  | nil =>
    refine ⟨.null, .null, fun ha hlimit => ?_, fun _ hg => ⟨.refl _, hg, .nil⟩⟩
    obtain ⟨limit, rfl⟩ := limit_eq ha hlimit
    rfl
  | bool b =>
    refine ⟨.bool b, .bool b, fun ha hlimit => ?_, fun _ hg => ⟨.refl _, hg, .bool b⟩⟩
    obtain ⟨limit, rfl⟩ := limit_eq ha hlimit
    rfl
  | string s =>
    refine ⟨.string s, .string s, fun ha hlimit => ?_, fun _ hg => ⟨.refl _, hg, .string s⟩⟩
    obtain ⟨limit, rfl⟩ := limit_eq ha hlimit
    rfl
  | @number n x hx =>
    -- An integer is read as a number again, and may have lost the sign of zero.
    obtain ⟨i, hi, hmin, hmax, heq⟩ | hfloat := Number.ofNumber_cases hx
    · refine ⟨.integer i, .integer hmin hmax, fun ha hlimit => ?_,
        fun _ hg => ⟨.refl _, hg, .number heq⟩⟩
      obtain ⟨limit, rfl⟩ := limit_eq ha hlimit
      exact congrArg Except.ok hi
    · refine ⟨.float x, .float hx, fun ha hlimit => ?_,
        fun _ hg => ⟨.refl _, hg, .number (Number.equal_self hx)⟩⟩
      obtain ⟨limit, rfl⟩ := limit_eq ha hlimit
      exact congrArg Except.ok hfloat
  | @array n i hi hparts ih =>
    obtain ⟨js, hjs⟩ := exists_forall₂ ih
    exact ⟨.array js, transcribes_array (.array hi hparts) hi hjs⟩
  | @map n i hi hparts ih =>
    have hmember : ∀ e ∈ (h.map i).toList, ∃ m : String × Json,
        m.1 = e.1 ∧ h.Transcribes n e.2 m.2 := by
      intro e he
      obtain ⟨j, hj⟩ := ih e he
      exact ⟨(e.1, j), rfl, hj⟩
    obtain ⟨ms, hms⟩ := exists_forall₂ hmember
    exact ⟨.object ms, transcribes_map (hlawful i) (.map hi hparts) hi hms⟩

/-! ## There and back -/

/-- **What is written as JSON is read as a copy**, and the copy is equal to the value. Neither
changes what was there. -/
theorem parse_stringify (hlawful : ∀ i, (h.map i).Lawful) (hd : h.Data 127 v) (sink : SinkId) :
    ∃ text v' h', Builtin.stringify.apply sink [v] h = .ok (.string text) h ∧
      Builtin.parse.apply sink [.string text] h = .ok v' h' ∧ h.Adds h' ∧
      h'.equal? v v' = some true ∧ h'.equal? v' v = some true ∧ h'.Copy v v' := by
  obtain ⟨j, hj⟩ := hd.transcribes hlawful
  have hwritten : h.stringify v = .ok (String.ofList j.compact) := by
    rw [stringify, toJson, hj.written (.nil h v) (Nat.le_refl _)]
    rfl
  have hread : h.parse (String.ofList j.compact) = .ok (h.ofJson j) := by
    rw [parse, hj.fits.read?_compact (by decide)]
  have hmade := hj.restored (.refl h) hlawful
  refine ⟨String.ofList j.compact, (h.ofJson j).1, (h.ofJson j).2, ?_, ?_, hmade.adds,
    hmade.copy.equal? hmade.lawful, hmade.copy.symm.equal? hmade.lawful, hmade.copy⟩
  · unfold Builtin.apply
    show (HeapM.ofExcept (h.stringify v) >>= fun text => pure (Value.string text)) h = _
    rw [hwritten]
    rfl
  · unfold Builtin.apply
    show (HeapM.ofExcept (h.parse (String.ofList j.compact)) >>= fun r => do
      set r.2
      pure r.1) h = _
    rw [hread]
    rfl

/-- A map that has an array twice, and in it numbers of all sizes, and a map with characters that
cannot stand in a string as they are. -/
def parcel : Heap where
  arrays := #[#[.number ⟨0x8000000000000000⟩, .number ⟨0x3fb999999999999a⟩, .number ⟨1⟩,
    .number ⟨0x4340000000000000⟩], #[]]
  maps := #[.ofList [("z", .array 0), ("a", .map 1), ("m", .array 0)],
    .ofList [("\"", .string "\x01é😀\n"), ("", .nil), ("!", .bool true), ("e", .array 1)]]

theorem parcel_lawful (i : MapId) : (parcel.map i).Lawful := by
  match i with
  | 0 | 1 => exact OrderedMap.lawful_ofList _
  | i + 2 => exact OrderedMap.lawful_empty

example : (parcel.stringify (.map 0)).toOption =
    some ("\x7b\"z\":[0,0.1,5e-324,9007199254740992.0]," ++
      "\"a\":\x7b\"\\\"\":\"\\u0001é😀\\n\",\"\":null,\"!\":true,\"e\":[]\x7d," ++
      "\"m\":[0,0.1,5e-324,9007199254740992.0]\x7d") := by
  decide +kernel

theorem parcel_returns : (∀ i, (parcel.map i).Lawful) ∧ parcel.Data 127 (.map 0) ∧
    ∃ text v' h', Builtin.stringify.apply 0 [.map 0] parcel = .ok (.string text) parcel ∧
      Builtin.parse.apply 0 [.string text] parcel = .ok v' h' ∧ parcel.Adds h' ∧
      h'.equal? (.map 0) v' = some true ∧ h'.equal? v' (.map 0) = some true ∧
      h'.Copy (.map 0) v' := by
  have hd : parcel.Data 127 (.map 0) := by decide +kernel
  exact ⟨parcel_lawful, hd, parse_stringify parcel_lawful hd 0⟩

end Heap

end TaskVm
