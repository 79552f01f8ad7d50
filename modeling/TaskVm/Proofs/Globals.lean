import TaskVm.Native.Cache

/-!
# Tables of globals

A table of globals has its entries in the order in which they came in, and a tree of the places of
their keys. The two agree, a place that has been given to a key is never given up, and what is found
under a key is what was last bound to it.
-/

namespace TaskVm

namespace OrderedMap

variable {α : Type} {m : OrderedMap α} {key key' : String} {v v' : α} {i : Nat}

/-- A key's place is where its entry is. -/
def Lawful (m : OrderedMap α) : Prop :=
  ∀ key i, m.place? key = some i ↔ m.entries[i]?.map (·.1) = some key

theorem lawful_empty : (empty : OrderedMap α).Lawful := by
  intro key i
  simp [empty, place?]

/-- A key that is there has a value. -/
theorem Lawful.at? (h : m.Lawful) (hi : m.place? key = some i) : ∃ v, m.at? i = some v := by
  obtain ⟨e, he, -⟩ := Option.map_eq_some_iff.mp ((h key i).mp hi)
  exact ⟨e.2, by rw [OrderedMap.at?, he]; rfl⟩

theorem get?_eq (hi : m.place? key = some i) : m.get? key = m.at? i := by
  rw [get?, hi]
  rfl

/-! ## Binding a key -/

theorem place?_insert_old (hp : m.place? key = some i) (v : α) (key' : String) :
    (m.insert key v).place? key' = m.place? key' := by
  unfold insert
  rw [hp]
  rfl

theorem place?_insert_new (hp : m.place? key = none) (v : α) (key' : String) :
    (m.insert key v).place? key' = if key = key' then some m.entries.size else m.place? key' := by
  unfold insert
  rw [hp]
  show (m.places.insert key m.entries.size)[key']? = _
  simp only [Std.TreeMap.getElem?_insert, Std.LawfulEqCmp.compare_eq_iff_eq]
  rfl

/-- **A place is never given up.** -/
theorem place?_insert_mono (hi : m.place? key' = some i) (key : String) (v : α) :
    (m.insert key v).place? key' = some i := by
  cases hp : m.place? key with
  | some j => rw [place?_insert_old hp, hi]
  | none =>
    rw [place?_insert_new hp, if_neg, hi]
    rintro rfl
    rw [hi] at hp
    cases hp

theorem entries_insert_old (hp : m.place? key = some i) (v : α) :
    (m.insert key v).entries = m.entries.modify i fun e => (e.1, v) := by
  unfold insert
  rw [hp]

theorem entries_insert_new (hp : m.place? key = none) (v : α) :
    (m.insert key v).entries = m.entries.push (key, v) := by
  unfold insert
  rw [hp]

theorem Lawful.insert (h : m.Lawful) (key : String) (v : α) : (m.insert key v).Lawful := by
  intro key' j
  cases hp : m.place? key with
  | some i =>
    rw [place?_insert_old hp, h, entries_insert_old hp, Array.getElem?_modify]
    split
    · rw [Option.map_map]
      rfl
    · rfl
  | none =>
    rw [place?_insert_new hp, entries_insert_new hp, Array.getElem?_push]
    split
    · rename_i heq
      subst heq
      split
      · rename_i hj
        subst hj
        simp
      · rename_i hj
        have hnone := h key j
        rw [hp] at hnone
        simp [← hnone, Ne.symm hj]
    · rename_i hne
      rw [h]
      split
      · rename_i hj
        subst hj
        simp [hne]
      · rfl

theorem get?_insert_self (h : m.Lawful) (key : String) (v : α) :
    (m.insert key v).get? key = some v := by
  cases hp : m.place? key with
  | some i =>
    obtain ⟨e, he, -⟩ := Option.map_eq_some_iff.mp ((h key i).mp hp)
    rw [get?_eq ((place?_insert_old hp v key).trans hp), OrderedMap.at?, entries_insert_old hp,
      Array.getElem?_modify, if_pos rfl, he]
    rfl
  | none =>
    rw [get?_eq ((place?_insert_new hp v key).trans (if_pos rfl)), OrderedMap.at?,
      entries_insert_new hp, Array.getElem?_push_size]
    rfl

theorem get?_insert_other (h : m.Lawful) (hne : key ≠ key') (v : α) :
    (m.insert key v).get? key' = m.get? key' := by
  cases hi : m.place? key' with
  | none =>
    have hnone : (m.insert key v).place? key' = none := by
      cases hp : m.place? key with
      | some j => rw [place?_insert_old hp, hi]
      | none => rw [place?_insert_new hp, if_neg hne, hi]
    rw [OrderedMap.get?, OrderedMap.get?, hnone, hi]
    rfl
  | some i =>
    rw [get?_eq (place?_insert_mono hi key v), get?_eq hi, OrderedMap.at?, OrderedMap.at?]
    obtain ⟨e, he, hkey⟩ := Option.map_eq_some_iff.mp ((h key' i).mp hi)
    cases hp : m.place? key with
    | some j =>
      have hij : j ≠ i := by
        rintro rfl
        rw [h, he] at hp
        exact hne (Option.some.inj hp ▸ hkey)
      rw [entries_insert_old hp, Array.getElem?_modify, if_neg hij]
    | none =>
      have hlt : i < m.entries.size := (Array.getElem?_eq_some_iff.mp he).1
      rw [entries_insert_new hp, Array.getElem?_push_lt hlt, Array.getElem?_eq_getElem hlt]

/-- **What is found is what was bound last.** -/
theorem Lawful.get?_insert (h : m.Lawful) (key : String) (v : α) (key' : String) :
    (m.insert key v).get? key' = if key = key' then some v else m.get? key' := by
  split
  · rename_i heq
    exact heq ▸ get?_insert_self h key v
  · exact get?_insert_other h ‹_› v

theorem lawful_ofList (entries : List (String × α)) : (ofList entries).Lawful := by
  have hfold : ∀ (es : List (String × α)) (m : OrderedMap α), m.Lawful →
      (es.foldl (fun m e => m.insert e.1 e.2) m).Lawful := by
    intro es
    induction es with
    | nil => exact fun m h => h
    | cons e es ih => exact fun m h => ih _ (h.insert e.1 e.2)
  exact hfold entries empty lawful_empty

/-! ## Entries -/

/-- The entries of a table are what is found in it. -/
theorem Lawful.mem_toList (h : m.Lawful) : (key, v) ∈ m.toList ↔ m.get? key = some v := by
  rw [toList, Array.mem_toList_iff, Array.mem_iff_getElem?]
  constructor
  · rintro ⟨i, hi⟩
    have hplace : m.place? key = some i := (h key i).mpr (by rw [hi]; rfl)
    rw [get?_eq hplace, OrderedMap.at?, hi]
    rfl
  · intro hv
    obtain ⟨i, hplace, hi⟩ := Option.bind_eq_some_iff.mp hv
    obtain ⟨e, he, hkey⟩ := Option.map_eq_some_iff.mp ((h key i).mp hplace)
    rw [OrderedMap.at?, he] at hi
    exact ⟨i, by rw [he, ← hkey, ← Option.some.inj hi]⟩

end OrderedMap

namespace NativeCache

/-! ## Natives among the globals -/

/-- A binding that is a native is added, and may take the place of one that was. -/
theorem foldl_natives {name : String} {id : NativeId} : ∀ (bs : List (String × Value))
    (found : Std.TreeMap String NativeId),
    (∀ v v', (name, v) ∈ bs → (name, v') ∈ bs → v = v') →
    ((bs.foldl (fun found b =>
      match b.2 with
      | .native id => found.insert b.1 id
      | _ => found) found)[name]? = some id ↔
    (name, .native id) ∈ bs ∨ (found[name]? = some id ∧ ∀ id', (name, .native id') ∉ bs))
  | [], found, _ => by simp
  | (key, v) :: bs, found, h => by
    have hbs : ∀ v v', (name, v) ∈ bs → (name, v') ∈ bs → v = v' := fun v v' hv hv' =>
      h v v' (List.mem_cons_of_mem _ hv) (List.mem_cons_of_mem _ hv')
    have hkey : ∀ v', key = name → (name, v') ∈ bs → v' = v := fun v' hk hv' =>
      h v' v (List.mem_cons_of_mem _ hv') (hk ▸ List.mem_cons_self)
    rw [List.foldl_cons, foldl_natives bs _ hbs]
    cases v with
    | native id₀ =>
      simp only [Std.TreeMap.getElem?_insert, Std.LawfulEqCmp.compare_eq_iff_eq]
      grind
    | _ => grind

/-- The natives among the globals, by name. -/
theorem nativesOf_iff {globals : Globals} (h : globals.Lawful) {name : String} {id : NativeId} :
    (nativesOf globals.toList)[name]? = some id ↔ globals.get? name = some (.native id) := by
  refine (foldl_natives globals.toList {} fun v v' hv hv' => ?_).trans ?_
  · exact Option.some.inj ((h.mem_toList.mp hv).symm.trans (h.mem_toList.mp hv'))
  · simp [h.mem_toList]

/-- The names with a place of their own are found like all others. -/
theorem found_build (c : NativeCache) (globals : Globals) (name : String) :
    (c.build globals).found name = (nativesOf globals.toList)[name]? := by
  unfold found build
  grind

end NativeCache

end TaskVm
