import TaskVm.Proofs.Bisimilarity

/-!
# Ordered maps are lists of bindings

An ordered map keeps its entries in an array and their places in a tree. What it is meant to be is
simpler: a list of keys with values in which no key comes twice. Binding a key that is there changes
the list in place, binding another one makes the list longer at its end, and removing a key closes
the gap.

The tree makes this worth proving. When a key is removed, all entries behind it move, and a place in
the tree that did not move with its entry would show only later, and under another key. So it is
said here once what a single call does to both, and a map that has come about by calls, however many
and in whatever order, is then told by its list alone.
-/

namespace TaskVm

/-! ## Lists of bindings -/

/-- Keys with values, in order. -/
abbrev Bindings (α : Type) := List (String × α)

namespace Bindings

variable {α : Type} {l : Bindings α} {key : String} {v : α}

def keys (l : Bindings α) : List String := l.map (·.1)

def values (l : Bindings α) : List α := l.map (·.2)

/-- Bind a key where it is, or else at the end. -/
def put (l : Bindings α) (key : String) (v : α) : Bindings α :=
  if key ∈ l.keys then l.map fun e => if e.1 = key then (e.1, v) else e else l ++ [(key, v)]

/-- Leave a key out. -/
def delete (l : Bindings α) (key : String) : Bindings α := l.filter fun e => e.1 ≠ key

/-- Without duplicates, the value of a key is the one that it stands beside. -/
theorem lookup_eq_some (hl : l.keys.Nodup) : l.lookup key = some v ↔ (key, v) ∈ l := by
  rw [List.lookup_eq_some_iff]
  constructor
  · rintro ⟨l₁, l₂, rfl, -⟩
    simp
  · intro hmem
    obtain ⟨l₁, l₂, rfl⟩ := List.append_of_mem hmem
    refine ⟨l₁, l₂, rfl, ?_⟩
    intro e he
    simp only [keys, List.map_append, List.map_cons, List.nodup_append] at hl
    have hne := hl.2.2 e.1 (List.mem_map.mpr ⟨e, he, rfl⟩) key List.mem_cons_self
    simpa using Ne.symm hne

theorem mem_keys_iff (l : Bindings α) (key : String) :
    key ∈ l.keys ↔ (l.lookup key).isSome = true := by
  rw [List.lookup_isSome_iff, keys, List.mem_map]
  constructor
  · rintro ⟨e, he, rfl⟩
    exact ⟨e, he, by simp⟩
  · rintro ⟨e, he, hkey⟩
    exact ⟨e, he, (beq_iff_eq.mp hkey).symm⟩

theorem put_delete (l : Bindings α) (key : String) (v : α) :
    (l.delete key).put key v = l.delete key ++ [(key, v)] := by
  have hgone : key ∉ (l.delete key).keys := by
    rw [keys, List.mem_map]
    rintro ⟨e, he, rfl⟩
    simp [delete] at he
  rw [put, if_neg hgone]

/-- What is true of all values stays so when a key is bound to a value of the kind. -/
theorem all_put {P : α → Prop} (hl : ∀ e ∈ l, P e.2) (hv : P v) : ∀ e ∈ l.put key v, P e.2 := by
  intro e he
  unfold put at he
  split at he
  · obtain ⟨e', he', rfl⟩ := List.mem_map.mp he
    split
    · exact hv
    · exact hl e' he'
  · rcases List.mem_append.mp he with he | he
    · exact hl e he
    · cases List.mem_singleton.mp he
      exact hv

/-- What stands in one place is left out by a test that fails there only. -/
theorem eraseIdx_eq_filter {β : Type} {p : β → Bool} : ∀ {l : List β} {i : Nat},
    (∀ (j : Nat) x, l[j]? = some x → (p x = false ↔ j = i)) → l.eraseIdx i = l.filter p
  | [], _, _ => by simp
  | x :: l, 0, hp => by
    have hx : p x = false := (hp 0 x rfl).mpr rfl
    have hrest : ∀ y ∈ l, p y = true := by
      intro y hy
      obtain ⟨j, hj⟩ := List.mem_iff_getElem?.mp hy
      have hiff := hp (j + 1) y hj
      simpa using hiff
    simp [hx, List.filter_eq_self.mpr hrest]
  | x :: l, i + 1, hp => by
    have hx : p x = true := by simpa using hp 0 x rfl
    have hrest : l.eraseIdx i = l.filter p := by
      refine eraseIdx_eq_filter ?_
      intro j y hj
      simpa using hp (j + 1) y hj
    simp [hx, hrest]

end Bindings

namespace OrderedMap

variable {α : Type} {m : OrderedMap α} {key key' : String} {v : α} {i j : Nat}

/-! ## Removing a key -/

/-- Only the listed keys are moved, and each of them by one. -/
theorem getElem?_shiftDown (key : String) : ∀ (moved : List (String × α)),
    (moved.map (·.1)).Nodup → ∀ places : Std.TreeMap String Nat,
    (shiftDown places moved)[key]? =
      if key ∈ moved.map (·.1) then places[key]?.map (· - 1) else places[key]?
  | [], _, places => by simp [shiftDown]
  | e :: moved, hnodup, places => by
    rw [List.map_cons, List.nodup_cons] at hnodup
    have hstep : shiftDown places (e :: moved) = shiftDown (places.modify e.1 (· - 1)) moved := rfl
    rw [hstep, getElem?_shiftDown key moved hnodup.2]
    simp only [Std.TreeMap.getElem?_modify, Std.LawfulEqCmp.compare_eq_iff_eq, List.map_cons]
    by_cases hkey : e.1 = key
    · subst hkey
      simp [hnodup.1]
    · have hmem : key ∈ e.1 :: moved.map (·.1) ↔ key ∈ moved.map (·.1) := by
        simp [Ne.symm hkey]
      rw [if_neg hkey]
      exact if_congr hmem.symm rfl rfl

/-- The keys behind a place are those that have a place behind it. -/
theorem mem_drop_keys (hm : m.Lawful) :
    key ∈ m.keys.drop (i + 1) ↔ ∃ j, i < j ∧ m.place? key = some j := by
  rw [keys, ← List.map_drop, List.mem_map]
  constructor
  · rintro ⟨e, he, rfl⟩
    obtain ⟨j, hj⟩ := List.mem_iff_getElem?.mp he
    rw [List.getElem?_drop, toList, Array.getElem?_toList] at hj
    exact ⟨i + 1 + j, by omega, (hm _ _).mpr (by rw [hj]; rfl)⟩
  · rintro ⟨j, hij, hj⟩
    obtain ⟨e, he, hkey⟩ := Option.map_eq_some_iff.mp ((hm key j).mp hj)
    refine ⟨e, List.mem_iff_getElem?.mpr ⟨j - (i + 1), ?_⟩, hkey⟩
    rw [List.getElem?_drop, toList, Array.getElem?_toList, ← he]
    congr 1
    omega

/-- **What removing a key does to places**: the key has none any more, those behind it are one
less, and the others stay. -/
theorem place?_erase (hm : m.Lawful) (hi : m.place? key = some i) (key' : String) :
    (m.erase key).place? key' = if key = key' then none
      else (m.place? key').map fun j => if i < j then j - 1 else j := by
  have hmoved : (m.toList.drop (i + 1)).map (·.1) = m.keys.drop (i + 1) := List.map_drop
  have hnodup : (m.keys.drop (i + 1)).Nodup := (List.drop_sublist _ _).nodup (nodup_keys hm)
  have hplaces : (m.erase key).places =
      shiftDown (m.places.erase key) (m.toList.drop (i + 1)) := by
    unfold erase
    rw [hi]
    rfl
  rw [place?, hplaces, getElem?_shiftDown key' _ (hmoved ▸ hnodup), hmoved]
  simp only [Std.TreeMap.getElem?_erase, Std.LawfulEqCmp.compare_eq_iff_eq]
  by_cases hkey : key = key'
  · simp [hkey]
  · rw [if_neg hkey, if_neg hkey]
    show (if _ then (m.place? key').map (· - 1) else m.place? key') = _
    have hmem : key' ∈ m.keys.drop (i + 1) ↔ ∃ j, i < j ∧ m.place? key' = some j :=
      mem_drop_keys hm
    cases hj : m.place? key' with
    | none => simp
    | some j => by_cases hij : i < j <;> simp [hmem, hj, hij]

theorem toList_erase_at (hi : m.place? key = some i) :
    (m.erase key).toList = m.toList.eraseIdx i := by
  unfold erase toList
  rw [hi]
  exact Array.toList_eraseIdxIfInBounds

/-- **Places and entries agree after a key has been removed.** -/
theorem Lawful.erase (hm : m.Lawful) (key : String) : (m.erase key).Lawful := by
  cases hi : m.place? key with
  | none =>
    have hsame : m.erase key = m := by
      unfold OrderedMap.erase
      rw [hi]
    rwa [hsame]
  | some i =>
    intro key' j
    have hentry : (m.erase key).entries[j]?.map (·.1) = some key' ↔
        m.place? key' = some (if j < i then j else j + 1) := by
      rw [hm, ← Array.getElem?_toList]
      show (m.erase key).toList[j]?.map _ = _ ↔ _
      rw [toList_erase_at hi, List.getElem?_eraseIdx, ← Array.getElem?_toList]
      split <;> rfl
    rw [hentry, place?_erase hm hi]
    by_cases hkey : key = key'
    · -- The key that is gone was at its own place only.
      subst hkey
      rw [if_pos rfl, hi, Option.some_inj]
      split <;> simp <;> omega
    · rw [if_neg hkey]
      cases hk : m.place? key' with
      | none => simp
      | some k =>
        have hik : k ≠ i := by
          rintro rfl
          have hsame := ((hm key k).mp hi).symm.trans ((hm key' k).mp hk)
          exact hkey (Option.some.inj hsame)
        rw [Option.map_some, Option.some_inj, Option.some_inj]
        split <;> split <;> omega

/-! ## Calls -/

/-- The entry at a key's place is the only one with the key. -/
theorem key_eq_iff (hm : m.Lawful) (hi : m.place? key = some i) {e : String × α}
    (he : m.toList[j]? = some e) : e.1 = key ↔ j = i := by
  have hj : m.place? e.1 = some j := by
    rw [hm, ← Array.getElem?_toList]
    exact congrArg (Option.map _) he
  constructor
  · rintro rfl
    exact Option.some.inj (hj.symm.trans hi)
  · rintro rfl
    exact Option.some.inj (((hm _ _).mp hj).symm.trans ((hm _ _).mp hi))

theorem toList_erase (hm : m.Lawful) (key : String) :
    (m.erase key).toList = Bindings.delete m.toList key := by
  cases hi : m.place? key with
  | none =>
    have hsame : m.erase key = m := by
      unfold OrderedMap.erase
      rw [hi]
    rw [hsame]
    refine (List.filter_eq_self.mpr ?_).symm
    intro e he
    have hkey : m.place? e.1 ≠ none := by
      have := (mem_keys hm).mp (List.mem_map_of_mem he)
      rwa [contains, Option.isSome_iff_ne_none] at this
    simp only [decide_eq_true_eq]
    rintro rfl
    exact hkey hi
  | some i =>
    rw [toList_erase_at hi, Bindings.delete]
    refine Bindings.eraseIdx_eq_filter ?_
    intro j e he
    rw [decide_eq_false_iff_not, not_not]
    exact key_eq_iff hm hi he

theorem toList_insert (hm : m.Lawful) (key : String) (v : α) :
    (m.insert key v).toList = Bindings.put m.toList key v := by
  have hmem : key ∈ Bindings.keys m.toList ↔ m.contains key = true := mem_keys hm
  unfold Bindings.put
  cases hi : m.place? key with
  | none =>
    have hnot : ¬ key ∈ Bindings.keys m.toList := by simp [hmem, contains, hi]
    rw [if_neg hnot, toList, entries_insert_new hi, Array.toList_push]
    rfl
  | some i =>
    have hin : key ∈ Bindings.keys m.toList := by simp [hmem, contains, hi]
    rw [if_pos hin, toList, entries_insert_old hi]
    -- An entry that is there is changed in place, and by its key that is the same entry.
    refine List.ext_getElem? ?_
    intro j
    rw [Array.getElem?_toList, Array.getElem?_modify, List.getElem?_map, ← Array.getElem?_toList]
    show (if i = j then m.toList[j]?.map _ else m.toList[j]?) = m.toList[j]?.map _
    cases he : m.toList[j]? with
    | none => simp
    | some e =>
      have hiff := key_eq_iff hm hi he
      by_cases hj : i = j
      · simp [hj, hiff.mpr hj.symm]
      · have hne : ¬ e.1 = key := fun hkey => hj (hiff.mp hkey).symm
        simp [hj, hne]

end OrderedMap

/-- A call that changes a map. -/
inductive MapCall (α : Type) where
  | insert (key : String) (value : α)
  | remove (key : String)
deriving DecidableEq

/-- The value that a call brings with it. -/
def MapCall.value? {α : Type} : MapCall α → Option α
  | .insert _ v => some v
  | .remove _ => none

/-- What a call on an ordered map returns, and the map afterwards. -/
def OrderedMap.call {α : Type} (m : OrderedMap α) : MapCall α → Option α × OrderedMap α
  | .insert key v => (none, m.insert key v)
  | .remove key => (m.get? key, m.erase key)

/-- What the same call on a list of bindings returns, and the list afterwards. -/
def Bindings.call {α : Type} (l : Bindings α) : MapCall α → Option α × Bindings α
  | .insert key v => (none, l.put key v)
  | .remove key => (l.lookup key, l.delete key)

/-- Make calls one after the other. The answers are in the order of the calls. -/
def MapCall.run {α σ : Type} (step : σ → MapCall α → Option α × σ) (s : σ) :
    List (MapCall α) → List (Option α) × σ
  | [] => ([], s)
  | c :: calls =>
    let (answer, s) := step s c
    let (answers, s) := MapCall.run step s calls
    (answer :: answers, s)

/-- The answers of calls on a new map, and the map that they make. -/
def OrderedMap.made {α : Type} (calls : List (MapCall α)) : List (Option α) × OrderedMap α :=
  MapCall.run OrderedMap.call .empty calls

/-- The answers of calls on the list without bindings, and the list that they make. -/
def Bindings.made {α : Type} (calls : List (MapCall α)) : List (Option α) × Bindings α :=
  MapCall.run Bindings.call [] calls

/-- A map stands for a list of bindings: it has them as its entries, and has their places right. -/
structure OrderedMap.StandsFor {α : Type} (m : OrderedMap α) (l : Bindings α) : Prop where
  lawful : m.Lawful
  toList : m.toList = l

namespace OrderedMap.StandsFor

variable {α : Type} {m : OrderedMap α} {l : Bindings α}

theorem nodup (hm : m.StandsFor l) : l.keys.Nodup := by
  rw [← hm.toList]
  exact nodup_keys hm.lawful

theorem get? (hm : m.StandsFor l) (key : String) : m.get? key = l.lookup key := by
  ext v
  rw [← hm.lawful.mem_toList, hm.toList, ← Bindings.lookup_eq_some hm.nodup]

theorem contains (hm : m.StandsFor l) (key : String) :
    m.contains key = (l.lookup key).isSome := by
  rw [Bool.eq_iff_iff, contains_iff hm.lawful, ← Option.isSome_iff_exists, hm.get?]

/-- **A call does to the map what it does to its list**, and returns the same. -/
theorem call (hm : m.StandsFor l) (c : MapCall α) :
    (m.call c).1 = (l.call c).1 ∧ (m.call c).2.StandsFor (l.call c).2 := by
  cases c with
  | insert key v =>
    refine ⟨rfl, hm.lawful.insert key v, ?_⟩
    rw [← hm.toList]
    exact toList_insert hm.lawful key v
  | remove key =>
    refine ⟨hm.get? key, hm.lawful.erase key, ?_⟩
    rw [← hm.toList]
    exact toList_erase hm.lawful key

/-- **So do all calls one after the other.** -/
theorem run (calls : List (MapCall α)) : ∀ {m : OrderedMap α} {l : Bindings α}, m.StandsFor l →
    (MapCall.run OrderedMap.call m calls).1 = (MapCall.run Bindings.call l calls).1 ∧
      (MapCall.run OrderedMap.call m calls).2.StandsFor (MapCall.run Bindings.call l calls).2 := by
  induction calls with
  | nil =>
    intro m l hm
    exact ⟨rfl, hm⟩
  | cons c calls ih =>
    intro m l hm
    obtain ⟨hanswer, hnext⟩ := hm.call c
    obtain ⟨hanswers, hlast⟩ := ih hnext
    exact ⟨congrArg₂ List.cons hanswer hanswers, hlast⟩

end OrderedMap.StandsFor

/-- A map that calls have made on a new one stands for the list that they make. -/
theorem OrderedMap.made_standsFor {α : Type} (calls : List (MapCall α)) :
    (made calls).1 = (Bindings.made calls).1 ∧
      (made calls).2.StandsFor (Bindings.made calls).2 :=
  StandsFor.run calls ⟨lawful_empty, rfl⟩

/-- The values in a list that calls have made have been brought by the calls. -/
theorem Bindings.all_made {α : Type} {P : α → Prop} {calls : List (MapCall α)}
    (hcalls : ∀ c ∈ calls, ∀ v ∈ c.value?, P v) : ∀ e ∈ (made calls).2, P e.2 := by
  have hrun : ∀ (calls : List (MapCall α)) (l : Bindings α),
      (∀ c ∈ calls, ∀ v ∈ c.value?, P v) → (∀ e ∈ l, P e.2) →
      ∀ e ∈ (MapCall.run Bindings.call l calls).2, P e.2 := by
    intro calls
    induction calls with
    | nil => exact fun l _ hl => hl
    | cons c calls ih =>
      intro l hcalls hl
      refine ih _ (fun c' hc' => hcalls c' (List.mem_cons_of_mem _ hc')) ?_
      cases c with
      | insert key v => exact all_put hl (hcalls _ List.mem_cons_self v rfl)
      | remove key => exact fun e he => hl e (List.mem_of_mem_filter he)
  exact hrun calls [] hcalls nofun

/-! ## What a map shows -/

/-- Whatever a map may be asked, its answer is that of a list of bindings. -/
structure OrderedMap.Shows {α : Type} (m : OrderedMap α) (l : Bindings α) : Prop where
  /-- The places are exactly those of the keys among the entries. -/
  places : ∀ key i, m.place? key = some i ↔ m.entries[i]?.map (·.1) = some key
  unique : m.keys.Nodup
  toList : m.toList = l
  keys : m.keys = l.keys
  values : m.values = l.values
  size : m.size = l.length
  get? : ∀ key, m.get? key = l.lookup key
  contains : ∀ key, m.contains key = true ↔ key ∈ l.keys
  /-- A key that is removed and bound again comes last. -/
  comesLast : ∀ key v, ((m.erase key).insert key v).toList = l.delete key ++ [(key, v)]

theorem OrderedMap.StandsFor.shows {α : Type} {m : OrderedMap α} {l : Bindings α}
    (hm : m.StandsFor l) : m.Shows l where
  places := hm.lawful
  unique := nodup_keys hm.lawful
  toList := hm.toList
  keys := congrArg Bindings.keys hm.toList
  values := congrArg Bindings.values hm.toList
  size := by
    rw [← hm.toList]
    rfl
  get? := hm.get?
  contains key := by rw [hm.contains, Bindings.mem_keys_iff]
  comesLast key v := by
    rw [toList_insert (hm.lawful.erase key), toList_erase hm.lawful, hm.toList,
      Bindings.put_delete]

end TaskVm
