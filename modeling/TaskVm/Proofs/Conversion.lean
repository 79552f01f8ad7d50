import TaskVm.Proofs.Copies

/-!
# What JSON can express

A value becomes a document if all that can be reached from it is data and no collection is inside
itself. The conversion knows only the path of collections that it is in. It puts a collection on the
path when it enters it and takes it off on every way out, also when something inside has failed. A
collection that is reached in two ways is not on the path when it is come to for the second time,
and one inside itself is.

The path is made explicit here: a conversion that changes a path has the results of the one that is
given one, and leaves the path as it was. Each collection on it is one less to come, so that there
is always an end.
-/

namespace TaskVm

/-- A value of a kind that JSON has. -/
def Value.Expressible : Value → Prop
  | .nil | .bool _ | .number _ | .string _ | .array _ | .map _ => True
  | _ => False

namespace Heap

open Relation

variable {h : Heap} {path : List Value} {v w : Value} {limit : Nat}

/-! ## Collections still to come -/

/-- The arrays and maps that are not on a path. -/
def unopened (h : Heap) (path : List Value) : Nat :=
  ((Finset.range h.arrays.size).filter fun i => .array i ∉ path).card +
    ((Finset.range h.maps.size).filter fun i => .map i ∉ path).card

theorem unopened_le (h : Heap) (path : List Value) : h.unopened path ≤ h.collections := by
  have harrays := Finset.card_filter_le (Finset.range h.arrays.size) fun i => .array i ∉ path
  have hmaps := Finset.card_filter_le (Finset.range h.maps.size) fun i => .map i ∉ path
  rw [Finset.card_range] at harrays hmaps
  exact Nat.add_le_add harrays hmaps

/-- A longer path leaves no more to come. -/
theorem filter_cons_subset (n : Nat) (kind : Nat → Value) :
    ((Finset.range n).filter fun i => kind i ∉ v :: path) ⊆
      (Finset.range n).filter fun i => kind i ∉ path := by
  intro i hi
  obtain ⟨hrange, hnot⟩ := Finset.mem_filter.mp hi
  exact Finset.mem_filter.mpr ⟨hrange, fun hin => hnot (List.mem_cons_of_mem _ hin)⟩

/-- What is put on the path is one less. -/
theorem filter_cons_ssubset {n i : Nat} {kind : Nat → Value} (hi : i < n) (hnew : kind i ∉ path) :
    ((Finset.range n).filter fun j => kind j ∉ kind i :: path) ⊂
      (Finset.range n).filter fun j => kind j ∉ path := by
  refine Finset.ssubset_iff.mpr ⟨i, by simp, fun j hj => ?_⟩
  rcases Finset.mem_insert.mp hj with rfl | hj
  · exact Finset.mem_filter.mpr ⟨Finset.mem_range.mpr hi, hnew⟩
  · exact filter_cons_subset n kind hj

/-- **Where something is entered, there is less to come.** -/
theorem PartOf.unopened_lt (hw : h.PartOf w v) (hnew : v ∉ path) :
    h.unopened (v :: path) < h.unopened path := by
  cases hw with
  | element hw =>
    have hi := array_lt_size (Array.size_pos_of_mem (Array.mem_toList_iff.mp hw))
    exact Nat.add_lt_add_of_lt_of_le (Finset.card_lt_card (filter_cons_ssubset hi hnew))
      (Finset.card_le_card (filter_cons_subset _ _))
  | entry he =>
    have hi := map_lt_size (Array.size_pos_of_mem (Array.mem_toList_iff.mp he))
    exact Nat.add_lt_add_of_le_of_lt (Finset.card_le_card (filter_cons_subset _ _))
      (Finset.card_lt_card (filter_cons_ssubset hi hnew))

/-! ## The path -/

/-- Convert things one after the other, up to the first that fails. -/
def convertEach {α β : Type}
    (convert : List Value → α → Option (Except RuntimeError β × List Value)) :
    List Value → List α → Option (Except RuntimeError (List β) × List Value)
  | path, [] => some (.ok [], path)
  | path, a :: as =>
    match convert path a with
    | none => none
    | some (.error e, path) => some (.error e, path)
    | some (.ok b, path) =>
      (convertEach convert path as).map fun r => (r.1.map (b :: ·), r.2)

/-- Put a collection on the path, unless it is there. -/
def enter (path : List Value) (v : Value) : Except RuntimeError (List Value) :=
  if path.contains v then .error (.typeError "cannot stringify a cyclic value") else .ok (v :: path)

/-- The conversion of a value to a document, with the path of collections that it changes on its
way. It does not go deeper than a limit, and has no result then. -/
def convert (h : Heap) : (limit : Nat) → List Value → Value →
    Option (Except RuntimeError Json × List Value)
  | 0, _, _ => none
  | limit + 1, path, v =>
    match v with
    | .nil => some (.ok .null, path)
    | .bool b => some (.ok (.bool b), path)
    | .number n => some (.ok (.ofNumber n), path)
    | .string s => some (.ok (.string s), path)
    | .array i =>
      match enter path v with
      | .error e => some (.error e, path)
      | .ok path =>
        (convertEach (h.convert limit) path (h.array i).toList).map fun r =>
          (r.1.map Json.array, r.2.tail)
    | .map i =>
      match enter path v with
      | .error e => some (.error e, path)
      | .ok path =>
        (convertEach (fun path e => (h.convert limit path e.2).map fun r =>
          (r.1.map (e.1, ·), r.2)) path (h.map i).toList).map fun r =>
            (r.1.map Json.object, r.2.tail)
    | other => some (.error (.typeError ("cannot stringify " ++ other.typeName)), path)

/-- If each conversion leaves the path as it was, then so do all of them, with one result or the
first error. -/
theorem convertEach_eq {α β : Type}
    {convert : List Value → α → Option (Except RuntimeError β × List Value)}
    {f : α → Except RuntimeError β} : ∀ {as : List α},
    (∀ a ∈ as, convert path a = some (f a, path)) →
    convertEach convert path as = some (as.mapM f, path)
  | [], _ => rfl
  | a :: as, hall => by
    have hrest := convertEach_eq fun a ha => hall a (List.mem_cons_of_mem _ ha)
    rw [convertEach, hall a List.mem_cons_self, List.mapM_cons]
    cases f a with
    | error e => rfl
    | ok b =>
      dsimp only
      rw [hrest]
      cases as.mapM f with
      | error e => rfl
      | ok bs => rfl

/-- **A conversion comes to an end, and leaves the path as it was**, whether it fails or not. Within
any two limits beyond the collections to come the result is the same. -/
theorem convert_eq : ∀ {limit limit' : Nat} {path : List Value} {v : Value},
    h.unopened path < limit → h.unopened path < limit' →
    h.convert limit path v = some (h.jsonWithin limit' path v, path) := by
  intro limit
  induction limit with
  | zero =>
    intro _ _ _ hlimit
    exact absurd hlimit (Nat.not_lt_zero _)
  | succ limit ih =>
    intro limit' path v hlimit hlimit'
    obtain ⟨limit', rfl⟩ : ∃ n, limit' = n + 1 := ⟨limit' - 1, by omega⟩
    -- Inside a collection that is not on the path there is less to come, for both limits.
    have hinside : ∀ {v w : Value}, h.PartOf w v → v ∉ path →
        h.convert limit (v :: path) w = some (h.jsonWithin limit' (v :: path) w, v :: path) := by
      intro v w hw hnew
      have hless := hw.unopened_lt hnew
      exact ih (by omega) (by omega)
    cases v with
    | array i =>
      unfold convert jsonWithin enter
      dsimp only
      by_cases hin : path.contains (.array i) = true
      · rw [if_pos hin, if_pos hin]
      · rw [if_neg hin, if_neg hin]
        dsimp only
        rw [convertEach_eq fun w hw => hinside (.element hw) (by simpa using hin)]
        rfl
    | map i =>
      unfold convert jsonWithin enter
      dsimp only
      by_cases hin : path.contains (.map i) = true
      · rw [if_pos hin, if_pos hin]
      · rw [if_neg hin, if_neg hin]
        dsimp only
        rw [convertEach_eq (f := fun e : String × Value =>
          (h.jsonWithin limit' (.map i :: path) e.2).map (e.1, ·)) fun e he => by
            rw [hinside (.entry he) (by simpa using hin)]
            rfl]
        rfl
    | _ => rfl

/-! ## Documents -/

/-- A document spells a value out: it has the documents of the parts wherever there are parts,
however often a collection is reached. -/
inductive Spells (h : Heap) : Value → Json → Prop where
  | nil : h.Spells .nil .null
  | bool (b : Bool) : h.Spells (.bool b) (.bool b)
  | number (x : Number) : h.Spells (.number x) (.ofNumber x)
  | string (s : String) : h.Spells (.string s) (.string s)
  | array {i : ArrayId} {js : List Json} (hsize : js.length = (h.array i).toList.length)
      (hparts : ∀ (k : Nat) v j, (h.array i).toList[k]? = some v → js[k]? = some j →
        h.Spells v j) : h.Spells (.array i) (.array js)
  | map {i : MapId} {ms : List (String × Json)} (hkeys : ms.map (·.1) = (h.map i).keys)
      (hparts : ∀ (k : Nat) e m, (h.map i).toList[k]? = some e → ms[k]? = some m →
        h.Spells e.2 m.2) : h.Spells (.map i) (.object ms)

/-- What is there in one of two lists of the same length is there in the other. -/
theorem exists_at {α β : Type} {as : List α} {bs : List β} (hlength : bs.length = as.length)
    {a : α} (ha : a ∈ as) : ∃ (k : Nat) (b : β), as[k]? = some a ∧ bs[k]? = some b := by
  obtain ⟨k, hk, rfl⟩ := List.mem_iff_getElem.mp ha
  exact ⟨k, bs[k], List.getElem?_eq_getElem hk, List.getElem?_eq_getElem (hlength ▸ hk)⟩

theorem length_of_keys {α : Type} {m : OrderedMap Value} {es : List (String × α)}
    (hkeys : es.map (·.1) = m.keys) : es.length = m.toList.length := by
  have hlength := congrArg List.length hkeys
  rwa [List.length_map, OrderedMap.keys, List.length_map] at hlength

/-- The parts of what is spelled out are. -/
theorem Spells.part {j : Json} (hs : h.Spells v j) (hw : h.PartOf w v) : ∃ j, h.Spells w j := by
  cases hw with
  | element hw =>
    cases hs with
    | array hsize hparts =>
      obtain ⟨k, j, hv, hj⟩ := exists_at hsize hw
      exact ⟨j, hparts k _ j hv hj⟩
  | entry he =>
    cases hs with
    | map hkeys hparts =>
      obtain ⟨k, m, he, hm⟩ := exists_at (length_of_keys hkeys) he
      exact ⟨m.2, hparts k _ m he hm⟩

/-- What is spelled out is not inside itself. -/
theorem Spells.not_inside {j : Json} (hs : h.Spells v j) : ¬ TransGen h.PartOf v v := by
  induction hs with
  | @array i js hsize hparts ih =>
    intro hself
    -- A way from an array to itself is one from one of its elements to itself as well.
    obtain ⟨w, hway, hw⟩ := TransGen.tail'_iff.mp hself
    cases hw with
    | element hmem =>
      obtain ⟨k, j, hv, hj⟩ := exists_at hsize hmem
      exact ih k w j hv hj (TransGen.head' (.element hmem) hway)
  | @map i ms hkeys hparts ih =>
    intro hself
    obtain ⟨w, hway, hw⟩ := TransGen.tail'_iff.mp hself
    cases hw with
    | entry he =>
      obtain ⟨k, m, he', hm⟩ := exists_at (length_of_keys hkeys) he
      exact ih k _ m he' hm (TransGen.head' (.entry he) hway)
  | nil | bool | number | string =>
    intro hself
    obtain ⟨_, -, hw⟩ := TransGen.tail'_iff.mp hself
    cases hw

/-- Some things are converted one after the other, or one of them fails. -/
theorem mapM_cases {α β ε : Type} (f : α → Except ε β) : ∀ as : List α,
    (∃ bs, as.mapM f = .ok bs ∧ List.Forall₂ (fun a b => f a = .ok b) as bs) ∨
      ∃ e, as.mapM f = .error e ∧ ∃ a ∈ as, f a = .error e
  | [] => .inl ⟨[], rfl, .nil⟩
  | a :: as => by
    rw [List.mapM_cons]
    cases ha : f a with
    | error e => exact .inr ⟨e, rfl, a, List.mem_cons_self, ha⟩
    | ok b =>
      rcases mapM_cases f as with ⟨bs, hbs, hall⟩ | ⟨e, he, a', ha', hfail⟩
      · rw [hbs]
        exact .inl ⟨b :: bs, rfl, .cons ha hall⟩
      · rw [he]
        exact .inr ⟨e, rfl, a', List.mem_cons_of_mem _ ha', hfail⟩

/-- A member of an object has the key of its entry, and the document of its value. -/
theorem member_eq_ok {x : Except RuntimeError Json} {key : String} {m : String × Json}
    (hm : x.map (key, ·) = .ok m) : m.1 = key ∧ x = .ok m.2 := by
  cases x with
  | error e => cases hm
  | ok j =>
    cases hm
    exact ⟨rfl, rfl⟩

theorem member_eq_error {x : Except RuntimeError Json} {key : String} {e : RuntimeError}
    (hm : x.map (key, ·) = .error e) : x = .error e := by
  cases x with
  | error e =>
    cases hm
    rfl
  | ok j => cases hm

/-- What a value comes to inside the collections of a path. -/
inductive Comes (h : Heap) (limit : Nat) (path : List Value) :
    Value → Except RuntimeError Json → Prop where
  | nil : h.Comes limit path .nil (.ok .null)
  | bool (b : Bool) : h.Comes limit path (.bool b) (.ok (.bool b))
  | number (x : Number) : h.Comes limit path (.number x) (.ok (.ofNumber x))
  | string (s : String) : h.Comes limit path (.string s) (.ok (.string s))
  | array {i : ArrayId} {js : List Json} (hnew : .array i ∉ path)
      (hall : List.Forall₂ (fun v j => h.jsonWithin limit (.array i :: path) v = .ok j)
        (h.array i).toList js) : h.Comes limit path (.array i) (.ok (.array js))
  | map {i : MapId} {ms : List (String × Json)} (hnew : .map i ∉ path)
      (hall : List.Forall₂ (fun e m => m.1 = e.1 ∧
        h.jsonWithin limit (.map i :: path) e.2 = .ok m.2) (h.map i).toList ms) :
      h.Comes limit path (.map i) (.ok (.object ms))
  | again {v : Value} (hin : v ∈ path) :
      h.Comes limit path v (.error (.typeError "cannot stringify a cyclic value"))
  | part {v w : Value} {e : RuntimeError} (hw : h.PartOf w v) (hnew : v ∉ path)
      (hfail : h.jsonWithin limit (v :: path) w = .error e) : h.Comes limit path v (.error e)
  | inexpressible {v : Value} (hkind : ¬ v.Expressible) :
      h.Comes limit path v (.error (.typeError ("cannot stringify " ++ v.typeName)))

theorem jsonWithin_comes (h : Heap) (limit : Nat) (path : List Value) (v : Value) :
    h.Comes limit path v (h.jsonWithin (limit + 1) path v) := by
  unfold jsonWithin
  cases v with
  | nil => exact .nil
  | bool b => exact .bool b
  | number x => exact .number x
  | string s => exact .string s
  | array i =>
    dsimp only
    split
    · rename_i hin
      exact .again (List.contains_iff_mem.mp hin)
    rename_i hin
    have hnew := fun hmem => hin (List.contains_iff_mem.mpr hmem)
    rcases mapM_cases (h.jsonWithin limit (.array i :: path)) (h.array i).toList with
      ⟨js, hjs, hall⟩ | ⟨e, he, w, hw, hfail⟩
    · rw [hjs]
      exact .array hnew hall
    · rw [he]
      exact .part (.element hw) hnew hfail
  | map i =>
    dsimp only
    split
    · rename_i hin
      exact .again (List.contains_iff_mem.mp hin)
    rename_i hin
    have hnew := fun hmem => hin (List.contains_iff_mem.mpr hmem)
    rcases mapM_cases (fun e : String × Value =>
        (h.jsonWithin limit (.map i :: path) e.2).map (e.1, ·)) (h.map i).toList with
      ⟨ms, hms, hall⟩ | ⟨e, he, m, hm, hfail⟩
    · rw [hms]
      exact .map hnew (hall.imp fun e m => member_eq_ok)
    · rw [he]
      exact .part (.entry hm) hnew (member_eq_error hfail)
  | _ => exact .inexpressible id

/-- The document that a value is converted to spells it out. -/
theorem spells_jsonWithin : ∀ {limit : Nat} {path : List Value} {v : Value} {j : Json},
    h.jsonWithin limit path v = .ok j → h.Spells v j := by
  intro limit
  induction limit with
  | zero =>
    intro _ _ _ hj
    cases hj
  | succ limit ih =>
    intro path v j hj
    have hcomes := h.jsonWithin_comes limit path v
    rw [hj] at hcomes
    cases hcomes with
    | nil => exact .nil
    | bool b => exact .bool b
    | number x => exact .number x
    | string s => exact .string s
    | array _ hall =>
      exact .array hall.length_eq.symm fun k v j hv hj => ih (getElem?_of_forall₂ hall hv hj)
    | map _ hall =>
      refine .map (keys_of_forall₂ (R := fun v j => h.jsonWithin limit _ v = .ok j) hall)
        fun k e m he hm => ?_
      exact ih (getElem?_of_forall₂ hall he hm).2

/-! ## What is rejected -/

/-- A value that can be written: no array or map that can be reached from it is inside itself, and
all else that can be reached is of a kind that JSON has. -/
def Writable (h : Heap) (v : Value) : Prop :=
  ∀ w, ReflTransGen h.PartOf w v → w.Expressible ∧ ¬ TransGen h.PartOf w w

/-- What is spelled out can be written. -/
theorem Spells.writable {j : Json} (hs : h.Spells v j) : h.Writable v := by
  intro w hw
  have hspelled : ∃ j, h.Spells w j := by
    induction hw using ReflTransGen.head_induction_on with
    | refl => exact ⟨j, hs⟩
    | head hpart _ ih =>
      obtain ⟨j, hj⟩ := ih
      exact hj.part hpart
  obtain ⟨j, hj⟩ := hspelled
  refine ⟨?_, hj.not_inside⟩
  cases hj <;> trivial

/-- Why a value is rejected: it is inside itself, or of a kind that JSON does not have. -/
inductive Objection (h : Heap) (w : Value) : RuntimeError → Prop where
  | cyclic (hself : TransGen h.PartOf w w) :
      h.Objection w (.typeError "cannot stringify a cyclic value")
  | inexpressible (hkind : ¬ w.Expressible) :
      h.Objection w (.typeError ("cannot stringify " ++ w.typeName))

/-- **An error is about something that can be reached**: when the value is inside all that is on the
path, and there is room for what is not on it. -/
theorem objection_of_error : ∀ {limit : Nat} {path : List Value} {v : Value} {e : RuntimeError},
    h.unopened path < limit → (∀ u ∈ path, TransGen h.PartOf v u) →
    h.jsonWithin limit path v = .error e → ∃ w, ReflTransGen h.PartOf w v ∧ h.Objection w e := by
  intro limit
  induction limit with
  | zero =>
    intro _ _ _ hlimit
    exact absurd hlimit (Nat.not_lt_zero _)
  | succ limit ih =>
    intro path v e hlimit hpath herror
    have hcomes := h.jsonWithin_comes limit path v
    rw [herror] at hcomes
    cases hcomes with
    | again hin => exact ⟨v, .refl, .cyclic (hpath v hin)⟩
    | inexpressible hkind => exact ⟨v, .refl, .inexpressible hkind⟩
    | @part _ w _ hw hnew hfail =>
      -- What is wrong with a part can be reached from the whole.
      have hless := hw.unopened_lt hnew
      have hroom : h.unopened (v :: path) < limit := by omega
      have hpath' : ∀ u ∈ v :: path, TransGen h.PartOf w u := by
        intro u hu
        rcases List.mem_cons.mp hu with rfl | hu
        · exact .single hw
        · exact .head hw (hpath u hu)
      obtain ⟨u, hu, hobjection⟩ := ih hroom hpath' hfail
      exact ⟨u, hu.tail hw, hobjection⟩

/-- There is something wrong with a value that is rejected. -/
theorem Objection.not_writable {e : RuntimeError} (hw : ReflTransGen h.PartOf w v)
    (ho : h.Objection w e) : ¬ h.Writable v := by
  intro hwritable
  obtain ⟨hkind, hself⟩ := hwritable w hw
  cases ho with
  | cyclic h => exact hself h
  | inexpressible h => exact h hkind

/-- A value has a document that spells it out and can be written, or there is an error about
something in it. -/
theorem toJson_cases (h : Heap) (v : Value) :
    (∃ j, h.toJson v = .ok j ∧ h.Spells v j ∧ h.Writable v) ∨
      ∃ msg, h.toJson v = .error (.typeError msg) ∧ ¬ h.Writable v := by
  have hroom : h.unopened [] < h.collections + 2 :=
    Nat.lt_of_le_of_lt (h.unopened_le []) (by omega)
  cases hresult : h.toJson v with
  | ok j =>
    have hs := spells_jsonWithin hresult
    exact .inl ⟨j, rfl, hs, hs.writable⟩
  | error e =>
    obtain ⟨w, hw, ho⟩ := objection_of_error hroom nofun hresult
    have hnot := ho.not_writable hw
    cases ho with
    | cyclic | inexpressible => exact .inr ⟨_, rfl, hnot⟩

theorem apply_stringify (h : Heap) (v : Value) (sink : SinkId) :
    Builtin.stringify.apply sink [v] h =
      match h.toJson v with
      | .ok j => .ok (.string (String.ofList j.compact)) h
      | .error e => .error (.raised e) h := by
  unfold Builtin.apply
  show (HeapM.ofExcept (h.stringify v) >>= fun text => pure (Value.string text)) h = _
  rw [stringify]
  cases h.toJson v <;> rfl

/-- **Exactly cycles and what is no data cannot be written.** The conversion of any value ends, and
leaves the path of open collections as it was, whether it succeeds or not. It gives the text of a
document that spells the value out if it can be written, and an error of type otherwise. -/
theorem stringify_decides (h : Heap) (v : Value) (sink : SinkId) :
    (∀ limit, h.collections < limit →
      (∀ path, h.convert limit path v = some (h.jsonWithin limit path v, path)) ∧
        h.convert limit [] v = some (h.toJson v, [])) ∧
    ((∃ j, h.Spells v j ∧ Builtin.stringify.apply sink [v] h =
      .ok (.string (String.ofList j.compact)) h) ↔ h.Writable v) ∧
    ((∃ msg, Builtin.stringify.apply sink [v] h = .error (.raised (.typeError msg)) h) ↔
      ¬ h.Writable v) := by
  refine ⟨fun limit hlimit => ?_, ?_⟩
  · have hroom : ∀ path, h.unopened path < limit :=
      fun path => Nat.lt_of_le_of_lt (h.unopened_le path) hlimit
    have hroom' : h.unopened [] < h.collections + 2 :=
      Nat.lt_of_le_of_lt (h.unopened_le []) (by omega)
    exact ⟨fun path => convert_eq (hroom path) (hroom path), convert_eq (hroom []) hroom'⟩
  · rw [apply_stringify]
    rcases toJson_cases h v with ⟨j, hj, hs, hwritable⟩ | ⟨msg, herror, hnot⟩
    · rw [hj]
      exact ⟨⟨fun _ => hwritable, fun _ => ⟨j, hs, rfl⟩⟩, ⟨nofun, fun hnot => absurd hwritable hnot⟩⟩
    · rw [herror]
      exact ⟨⟨nofun, fun hwritable => absurd hwritable hnot⟩, ⟨fun _ => hnot, fun _ => ⟨msg, rfl⟩⟩⟩

/-- A map with an array in two places, and beside it an array that contains itself and one with a
channel. -/
def bundle : Heap where
  arrays := #[#[.number (.ofInt 1)], #[.array 0, .array 1], #[.array 0, .channel 0]]
  maps := #[.ofList [("a", .array 0), ("b", .array 0)]]

example : (bundle.stringify (.map 0)).toOption = some "\x7b\"a\":[1],\"b\":[1]\x7d" := by
  decide +kernel

example : bundle.convert 5 [] (.array 1) =
    some (.error (.typeError "cannot stringify a cyclic value"), []) := by
  rfl

end Heap

end TaskVm
