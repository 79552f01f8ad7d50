import TaskVm.Proofs.Comparisons
import TaskVm.Proofs.Computation
import TaskVm.Proofs.Globals

/-!
# Regions of the heap

A program does not come to all objects of a heap, but only to those that its globals lead to,
and to what it makes itself. A region is a set of objects that is closed in this sense. Here it
is said what it means that nothing in a region is a fatal error, and shown that computing on
the heap keeps it so: no operation and no builtin makes a value out of anything but the values
it has been given, those in the region, and such as lead nowhere.

That computations on a state keep a property of it, and give results with another one, is said
once, for those of natives and for those of instructions.
-/

namespace TaskVm

theorem mem_of_mem_eraseIdxIfInBounds {α : Type} {xs : Array α} {i : Nat} {x : α}
    (h : x ∈ xs.eraseIdxIfInBounds i) : x ∈ xs := by
  unfold Array.eraseIdxIfInBounds at h
  split at h
  · exact Array.mem_of_mem_eraseIdx h
  · exact h

theorem mem_of_mem_pop {α : Type} {xs : Array α} {x : α} (h : x ∈ xs.pop) : x ∈ xs := by
  rw [← Array.mem_toList_iff, Array.toList_pop] at h
  exact Array.mem_toList_iff.mp (List.dropLast_subset _ h)

theorem mem_of_mem_insertIdxIfInBounds {α : Type} {xs : Array α} {i : Nat} {x y : α}
    (h : y ∈ xs.insertIdxIfInBounds i x) : y = x ∨ y ∈ xs := by
  unfold Array.insertIdxIfInBounds at h
  split at h
  · exact Array.mem_insertIdx.mp h
  · exact .inr h

/-! ## Entries of maps -/

namespace OrderedMap

variable {α : Type} {m : OrderedMap α} {P : α → Prop}

/-- All values of a map have a property. -/
def All (P : α → Prop) (m : OrderedMap α) : Prop := ∀ e ∈ m.entries, P e.2

theorem all_empty : (empty : OrderedMap α).All P := fun e he => nomatch Array.not_mem_empty e he

theorem All.at? (h : m.All P) {i : Nat} {v : α} (hv : m.at? i = some v) : P v := by
  obtain ⟨e, he, rfl⟩ := Option.map_eq_some_iff.mp hv
  exact h e (Array.mem_of_getElem? he)

theorem All.get? (h : m.All P) {key : String} {v : α} (hv : m.get? key = some v) : P v := by
  obtain ⟨i, -, hi⟩ := Option.bind_eq_some_iff.mp hv
  exact h.at? hi

theorem All.values (h : m.All P) : ∀ v ∈ m.values, P v := by
  intro v hv
  obtain ⟨e, he, rfl⟩ := List.mem_map.mp hv
  exact h e (Array.mem_toList_iff.mp he)

theorem All.insert (h : m.All P) (key : String) {v : α} (hv : P v) : (m.insert key v).All P := by
  intro e he
  cases hp : m.place? key with
  | some i =>
    rw [entries_insert_old hp] at he
    obtain ⟨j, hj⟩ := Array.mem_iff_getElem?.mp he
    rw [Array.getElem?_modify] at hj
    split at hj
    · obtain ⟨_, -, rfl⟩ := Option.map_eq_some_iff.mp hj
      exact hv
    · exact h e (Array.mem_of_getElem? hj)
  | none =>
    rw [entries_insert_new hp] at he
    rcases Array.mem_push.mp he with he | rfl
    · exact h e he
    · exact hv

theorem All.erase (h : m.All P) (key : String) : (m.erase key).All P := by
  unfold OrderedMap.erase
  split
  · exact h
  · exact fun e he => h e (mem_of_mem_eraseIdxIfInBounds he)

theorem all_ofList {entries : List (String × α)} (h : ∀ e ∈ entries, P e.2) :
    (ofList entries).All P := by
  suffices hfold : ∀ (es : List (String × α)) (m : OrderedMap α), m.All P → (∀ e ∈ es, P e.2) →
      (es.foldl (fun m e => m.insert e.1 e.2) m).All P from hfold entries empty all_empty h
  intro es
  induction es with
  | nil => exact fun m hm _ => hm
  | cons e es ih =>
    intro m hm hes
    exact ih _ (hm.insert _ (hes e List.mem_cons_self)) fun x hx =>
      hes x (List.mem_cons_of_mem _ hx)

end OrderedMap

/-! ## Regions -/

/-- A part of the objects of a heap. -/
structure Region where
  arrays : ArrayId → Prop
  maps : MapId → Prop
  cells : CellId → Prop
  closures : ClosureId → Prop
  channels : ChannelId → Prop

namespace Region

variable {R : Region}

/-- A value that leads to objects of the region only, and is not a fatal error. -/
def Holds (R : Region) : Value → Prop
  | .array i => R.arrays i
  | .map i => R.maps i
  | .closure i => R.closures i
  | .channel i => R.channels i
  | .boundMethod receiver _ => R.Holds receiver
  | .error e => e.isFatal = false
  | _ => True

theorem Holds.of_literal {v : Value} (h : v.Literal) : R.Holds v := by
  cases v with
  | nil | bool | number | string | function => exact trivial
  | _ => exact h.elim

theorem holds_getD {o : Option Value} (h : ∀ v, o = some v → R.Holds v) : R.Holds (o.getD .nil) := by
  cases o with
  | none => exact trivial
  | some v => exact h v rfl

theorem holds_strings {α : Type} (f : α → String) (xs : List α) :
    ∀ v ∈ xs.map fun x => Value.string (f x), R.Holds v := by
  intro v hv
  obtain ⟨_, -, rfl⟩ := List.mem_map.mp hv
  exact trivial

/-- What is in a channel, or is to be sent on it. -/
structure HoldsChannel (R : Region) (c : Channel) : Prop where
  buffer : ∀ v ∈ c.buffer, R.Holds v
  senders : ∀ s ∈ c.senders, R.Holds s.2

/-- The code of a heap is as files hold it, and what is in the region leads to nothing outside
and is no fatal error. All that is made from now on is in the region. -/
structure Clean (R : Region) (h : Heap) : Prop where
  coded : h.Coded
  arrays : ∀ i, R.arrays i → ∀ v ∈ h.array i, R.Holds v
  maps : ∀ i, R.maps i → (h.map i).All R.Holds
  cells : ∀ i v, R.cells i → h.cell i = .closed v → R.Holds v
  closures : ∀ i, R.closures i → ∀ c ∈ (h.closure i).upvalues, R.cells c
  channels : ∀ i, R.channels i → R.HoldsChannel (h.channel i)
  newArrays : ∀ i, h.arrays.size ≤ i → R.arrays i
  newMaps : ∀ i, h.maps.size ≤ i → R.maps i
  newCells : ∀ i, h.cells.size ≤ i → R.cells i
  newClosures : ∀ i, h.closures.size ≤ i → R.closures i
  newChannels : ∀ i, h.channels.size ≤ i → R.channels i

namespace Clean

variable {h h' : Heap}

/-- Nothing that a region is about has changed. -/
theorem of_eq (hR : R.Clean h) (hcoded : h'.Coded) (harrays : h'.arrays = h.arrays)
    (hmaps : h'.maps = h.maps) (hcells : h'.cells = h.cells) (hclosures : h'.closures = h.closures)
    (hchannels : h'.channels = h.channels) : R.Clean h' where
  coded := hcoded
  arrays i hi v hv := hR.arrays i hi v (by rwa [Heap.array, harrays] at hv)
  maps i hi := by
    rw [Heap.map, hmaps]
    exact hR.maps i hi
  cells i v hi hv := hR.cells i v hi (by rwa [Heap.cell, hcells] at hv)
  closures i hi c hc := hR.closures i hi c (by rwa [Heap.closure, hclosures] at hc)
  channels i hi := by
    rw [Heap.channel, hchannels]
    exact hR.channels i hi
  newArrays i hi := hR.newArrays i (harrays ▸ hi)
  newMaps i hi := hR.newMaps i (hmaps ▸ hi)
  newCells i hi := hR.newCells i (hcells ▸ hi)
  newClosures i hi := hR.newClosures i (hclosures ▸ hi)
  newChannels i hi := hR.newChannels i (hchannels ▸ hi)

theorem withArrays (hR : R.Clean h) {arrays : Array (Array Value)}
    (hsize : h.arrays.size ≤ arrays.size)
    (hall : ∀ i, R.arrays i → ∀ v ∈ arrays.getD i #[], R.Holds v) :
    R.Clean { h with arrays } where
  coded := hR.coded.of_eq (fun _ => rfl) rfl
  arrays := hall
  maps := hR.maps
  cells := hR.cells
  closures := hR.closures
  channels := hR.channels
  newArrays i hi := hR.newArrays i (Nat.le_trans hsize hi)
  newMaps := hR.newMaps
  newCells := hR.newCells
  newClosures := hR.newClosures
  newChannels := hR.newChannels

theorem withMaps (hR : R.Clean h) {maps : Array (OrderedMap Value)} (hsize : h.maps.size ≤ maps.size)
    (hall : ∀ i, R.maps i → (maps.getD i {}).All R.Holds) : R.Clean { h with maps } where
  coded := hR.coded.of_eq (fun _ => rfl) rfl
  arrays := hR.arrays
  maps := hall
  cells := hR.cells
  closures := hR.closures
  channels := hR.channels
  newArrays := hR.newArrays
  newMaps i hi := hR.newMaps i (Nat.le_trans hsize hi)
  newCells := hR.newCells
  newClosures := hR.newClosures
  newChannels := hR.newChannels

theorem withCells (hR : R.Clean h) {cells : Array Cell} (hsize : h.cells.size ≤ cells.size)
    (hall : ∀ i v, R.cells i → cells.getD i default = .closed v → R.Holds v) :
    R.Clean { h with cells } where
  coded := hR.coded.of_eq (fun _ => rfl) rfl
  arrays := hR.arrays
  maps := hR.maps
  cells := hall
  closures := hR.closures
  channels := hR.channels
  newArrays := hR.newArrays
  newMaps := hR.newMaps
  newCells i hi := hR.newCells i (Nat.le_trans hsize hi)
  newClosures := hR.newClosures
  newChannels := hR.newChannels

theorem withChannels (hR : R.Clean h) {channels : Array Channel}
    (hsize : h.channels.size ≤ channels.size)
    (hall : ∀ i, R.channels i → R.HoldsChannel (channels.getD i default)) :
    R.Clean { h with channels } where
  coded := hR.coded.of_eq (fun _ => rfl) rfl
  arrays := hR.arrays
  maps := hR.maps
  cells := hR.cells
  closures := hR.closures
  channels := hall
  newArrays := hR.newArrays
  newMaps := hR.newMaps
  newCells := hR.newCells
  newClosures := hR.newClosures
  newChannels i hi := hR.newChannels i (Nat.le_trans hsize hi)

/-! ### Changing objects -/

theorem newArray (hR : R.Clean h) {items : Array Value} (hitems : ∀ v ∈ items, R.Holds v) :
    R.Clean (h.newArray items).2 := by
  refine hR.withArrays (by simp) fun i hi v hv => ?_
  rw [Array.getD_eq_getD_getElem?, Array.getElem?_push] at hv
  split at hv
  · exact hitems v hv
  · rw [← Array.getD_eq_getD_getElem?] at hv
    exact hR.arrays i hi v hv

theorem newMap (hR : R.Clean h) {m : OrderedMap Value} (hm : m.All R.Holds) :
    R.Clean (h.newMap m).2 := by
  refine hR.withMaps (by simp) fun i hi => ?_
  rw [Array.getD_eq_getD_getElem?, Array.getElem?_push]
  split
  · exact hm
  · rw [← Array.getD_eq_getD_getElem?]
    exact hR.maps i hi

/-- Changing the elements of an array to others that the region holds. -/
theorem changeArray (hR : R.Clean h) (a : ArrayId) {f : Array Value → Array Value}
    (hf : R.arrays a → ∀ v ∈ f (h.array a), R.Holds v) :
    R.Clean { h with arrays := h.arrays.modify a f } := by
  refine hR.withArrays (by simp) fun i hi v hv => ?_
  rw [Array.getD_eq_getD_getElem?, Array.getElem?_modify] at hv
  split at hv
  · rename_i hai
    subst hai
    cases hx : h.arrays[a]? with
    | none =>
      rw [hx] at hv
      cases Array.not_mem_empty v hv
    | some items =>
      rw [hx] at hv
      refine hf hi v ?_
      rw [Heap.array, Array.getD_eq_getD_getElem?, hx]
      exact hv
  · rw [← Array.getD_eq_getD_getElem?] at hv
    exact hR.arrays i hi v hv

theorem setArray (hR : R.Clean h) (a : ArrayId) {items : Array Value}
    (hitems : R.arrays a → ∀ v ∈ items, R.Holds v) : R.Clean (h.setArray a items) := by
  refine hR.withArrays (by simp) fun i hi v hv => ?_
  rw [Array.getD_eq_getD_getElem?, Array.getElem?_setIfInBounds] at hv
  split at hv
  · rename_i hai
    subst hai
    split at hv
    · exact hitems hi v hv
    · cases Array.not_mem_empty v hv
  · rw [← Array.getD_eq_getD_getElem?] at hv
    exact hR.arrays i hi v hv

theorem setMap (hR : R.Clean h) (a : MapId) {m : OrderedMap Value}
    (hm : R.maps a → m.All R.Holds) : R.Clean (h.setMap a m) := by
  refine hR.withMaps (by simp) fun i hi => ?_
  rw [Array.getD_eq_getD_getElem?, Array.getElem?_setIfInBounds]
  split
  · rename_i hai
    subst hai
    split
    · exact hm hi
    · exact OrderedMap.all_empty
  · rw [← Array.getD_eq_getD_getElem?]
    exact hR.maps i hi

theorem setCell (hR : R.Clean h) (a : CellId) {v : Value} (hv : R.Holds v) :
    R.Clean (h.setCell a (.closed v)) := by
  refine hR.withCells (by simp) fun i w hi hw => ?_
  rw [Array.getD_eq_getD_getElem?, Array.getElem?_setIfInBounds] at hw
  split at hw
  · split at hw
    · cases hw
      exact hv
    · cases hw
  · rw [← Array.getD_eq_getD_getElem?] at hw
    exact hR.cells i w hi hw

theorem newCell (hR : R.Clean h) (task : TaskId) (slot : Nat) :
    R.Clean (h.newCell (.onStack task slot)).2 := by
  refine hR.withCells (by simp) fun i w hi hw => ?_
  rw [Array.getD_eq_getD_getElem?, Array.getElem?_push] at hw
  split at hw
  · cases hw
  · rw [← Array.getD_eq_getD_getElem?] at hw
    exact hR.cells i w hi hw

theorem setChannel (hR : R.Clean h) (a : ChannelId) {c : Channel}
    (hc : R.channels a → R.HoldsChannel c) : R.Clean (h.setChannel a c) := by
  refine hR.withChannels (by simp) fun i hi => ?_
  rw [Array.getD_eq_getD_getElem?, Array.getElem?_setIfInBounds]
  split
  · rename_i hai
    subst hai
    split
    · exact hc hi
    · exact ⟨nofun, nofun⟩
  · rw [← Array.getD_eq_getD_getElem?]
    exact hR.channels i hi

theorem newChannel (hR : R.Clean h) (n : Nat) : R.Clean (h.newChannel (.ofCapacity n)).2 := by
  refine hR.withChannels (by simp) fun i hi => ?_
  rw [Array.getD_eq_getD_getElem?, Array.getElem?_push]
  split
  · exact ⟨nofun, nofun⟩
  · rw [← Array.getD_eq_getD_getElem?]
    exact hR.channels i hi

theorem newClosure (hR : R.Clean h) {c : Closure} (hc : ∀ u ∈ c.upvalues, R.cells u) :
    R.Clean (h.newClosure c).2 where
  coded := hR.coded.of_eq (fun _ => rfl) rfl
  arrays := hR.arrays
  maps := hR.maps
  cells := hR.cells
  closures i hi u hu := by
    rw [Heap.newClosure, Heap.closure, Array.getD_eq_getD_getElem?, Array.getElem?_push] at hu
    split at hu
    · exact hc u hu
    · rw [← Array.getD_eq_getD_getElem?] at hu
      exact hR.closures i hi u hu
  channels := hR.channels
  newArrays := hR.newArrays
  newMaps := hR.newMaps
  newCells := hR.newCells
  newClosures i hi := hR.newClosures i (by
    rw [Heap.newClosure, Array.size_push] at hi
    omega)
  newChannels := hR.newChannels

theorem newTemplate (hR : R.Clean h) (t : Template) : R.Clean (h.newTemplate t).2 :=
  hR.of_eq (hR.coded.newTemplate t) rfl rfl rfl rfl rfl

theorem writeLine (hR : R.Clean h) (sink : SinkId) (line : String) :
    R.Clean (h.writeLine sink line) :=
  hR.of_eq (hR.coded.of_eq (fun _ => rfl) rfl) rfl rfl rfl rfl rfl

theorem setStatus (hR : R.Clean h) (handle : HandleId) (st : TaskStatus) :
    R.Clean (h.setStatus handle st) :=
  hR.of_eq (hR.coded.of_eq (fun _ => rfl) rfl) rfl rfl rfl rfl rfl

theorem newHandle (hR : R.Clean h) (t : TaskHandle) : R.Clean (h.newHandle t).2 :=
  hR.of_eq (hR.coded.of_eq (fun _ => rfl) rfl) rfl rfl rfl rfl rfl

theorem rememberSlot (hR : R.Clean h) (chunk : ChunkId) (constant : Nat) (vm : VmId) (slot : Nat) :
    R.Clean (h.rememberSlot chunk constant vm slot) := by
  refine hR.of_eq (hR.coded.of_eq (fun c => ?_) rfl) rfl rfl rfl rfl rfl
  simp only [Heap.chunk, Heap.rememberSlot, Array.getD_eq_getD_getElem?, Array.getElem?_modify]
  split
  · cases h.chunks[c]? <;> rfl
  · rfl

/-! ### Looking up -/

theorem elements (hR : R.Clean h) {a : ArrayId} (ha : R.arrays a) :
    ∀ v ∈ (h.array a).toList, R.Holds v := fun v hv =>
  hR.arrays a ha v (Array.mem_toList_iff.mp hv)

theorem element (hR : R.Clean h) {a : ArrayId} (ha : R.arrays a) (i : Nat) :
    R.Holds ((h.array a).getD i .nil) := by
  rw [Array.getD_eq_getD_getElem?]
  exact holds_getD fun v hv => hR.arrays a ha v (Array.mem_of_getElem? hv)

theorem index (hR : R.Clean h) {collection key v : Value} (hc : R.Holds collection)
    (hv : h.index collection key = .ok v) : R.Holds v := by
  unfold Heap.index at hv
  split at hv
  · rename_i a n
    cases hp : (Value.number n).position (h.array a).size with
    | error e =>
      rw [hp] at hv
      cases hv
    | ok p =>
      rw [hp] at hv
      cases hv
      exact hR.element hc p
  · rename_i s n
    cases hp : (Value.number n).position s.length with
    | error e =>
      rw [hp] at hv
      cases hv
    | ok p =>
      rw [hp] at hv
      cases hv
      split <;> exact trivial
  -- Fields that are not stored but computed: a number, or a method bound to the collection.
  · cases hv
    split
    · exact trivial
    · exact hc
  · cases hv
    split <;> exact trivial
  · dsimp only at hv
    split at hv
    · rename_i w hw
      cases hv
      exact (hR.maps _ hc).get? hw
    · split at hv
      · cases hv
        exact hc
      · cases hv
  · cases hv
  · cases hv

theorem setIndex (hR : R.Clean h) {collection key v : Value} (hc : R.Holds collection)
    (hv : R.Holds v) (hs : h.setIndex collection key v = .ok h') : R.Clean h' := by
  unfold Heap.setIndex at hs
  split at hs
  · rename_i a
    cases hp : key.position (h.array a).size with
    | error e =>
      rw [hp] at hs
      cases hs
    | ok p =>
      rw [hp] at hs
      cases hs
      refine hR.setArray a fun ha w hw => ?_
      rcases Array.mem_or_eq_of_mem_setIfInBounds hw with hw | rfl
      · exact hR.arrays a ha w hw
      · exact hv
  · cases hs
    exact hR.setMap _ fun hm => (hR.maps _ hm).insert _ hv
  · cases hs

theorem iterationItems (hR : R.Clean h) {v : Value} (hv : R.Holds v) {items : List Value}
    (hi : h.iterationItems v = .ok items) : ∀ w ∈ items, R.Holds w := by
  unfold Heap.iterationItems at hi
  split at hi
  · cases hi
    exact hR.elements hv
  · cases hi
    exact holds_strings _ _
  · cases hi
    exact holds_strings _ _
  · cases hi

end Clean

mutual

/-- A document becomes a value that leads to new collections only. -/
theorem Clean.ofJson {h : Heap} (hR : R.Clean h) :
    ∀ j : Json, R.Holds (h.ofJson j).1 ∧ R.Clean (h.ofJson j).2
  | .null | .bool _ | .integer _ | .float _ | .string _ => ⟨trivial, hR⟩
  | .array items => by
    obtain ⟨hitems, hR'⟩ := hR.ofJsonItems items
    refine ⟨hR'.newArrays _ (Nat.le_refl _), hR'.newArray fun v hv => hitems v ?_⟩
    simpa using hv
  | .object members => by
    obtain ⟨hmembers, hR'⟩ := hR.ofJsonMembers members
    exact ⟨hR'.newMaps _ (Nat.le_refl _), hR'.newMap (OrderedMap.all_ofList hmembers)⟩

theorem Clean.ofJsonItems {h : Heap} (hR : R.Clean h) : ∀ js : List Json,
    (∀ v ∈ (h.ofJsonItems js).1, R.Holds v) ∧ R.Clean (h.ofJsonItems js).2
  | [] => ⟨nofun, hR⟩
  | item :: rest => by
    obtain ⟨hitem, hR'⟩ := hR.ofJson item
    obtain ⟨hrest, hR''⟩ := hR'.ofJsonItems rest
    refine ⟨fun v hv => ?_, hR''⟩
    rcases List.mem_cons.mp hv with rfl | hv
    · exact hitem
    · exact hrest v hv

theorem Clean.ofJsonMembers {h : Heap} (hR : R.Clean h) : ∀ js : List (String × Json),
    (∀ e ∈ (h.ofJsonMembers js).1, R.Holds e.2) ∧ R.Clean (h.ofJsonMembers js).2
  | [] => ⟨nofun, hR⟩
  | (_, item) :: rest => by
    obtain ⟨hitem, hR'⟩ := hR.ofJson item
    obtain ⟨hrest, hR''⟩ := hR'.ofJsonMembers rest
    refine ⟨fun e he => ?_, hR''⟩
    rcases List.mem_cons.mp he with rfl | he
    · exact hitem
    · exact hrest e he

end

/-! ### Everything -/

end Region

/-! ## Computations -/

/-- A computation keeps a property of its state, gives results with another one, and does not
compare for ever. -/
def Safe {σ α : Type} (P : σ → Prop) (Q : α → Prop) (x : EStateM Fault σ α) : Prop :=
  ∀ s, P s → match x s with
    | .ok a s' => Q a ∧ P s'
    | .error e s' => e ≠ .endless ∧ P s'

section

variable {σ α β : Type} {P : σ → Prop} {Q : α → Prop} {Q' : β → Prop}

theorem Safe.of_ok {x : EStateM Fault σ α} (h : Safe P Q x) {s s' : σ} {a : α} (hs : P s)
    (hx : x s = .ok a s') : Q a ∧ P s' := by
  have hsafe := h s hs
  rwa [hx] at hsafe

theorem Safe.of_error {x : EStateM Fault σ α} (h : Safe P Q x) {s s' : σ} {e : Fault} (hs : P s)
    (hx : x s = .error e s') : e ≠ .endless ∧ P s' := by
  have hsafe := h s hs
  rwa [hx] at hsafe

theorem safe_pure {a : α} (ha : Q a) : Safe P Q (pure a) := fun _ hs => ⟨ha, hs⟩

theorem safe_throw (e : RuntimeError) : Safe P Q (throw (.raised e)) := fun _ hs => ⟨nofun, hs⟩

theorem safe_bind {x : EStateM Fault σ α} {f : α → EStateM Fault σ β} (hx : Safe P Q x)
    (hf : ∀ a, Q a → Safe P Q' (f a)) : Safe P Q' (x >>= f) := by
  intro s hs
  cases h : x s with
  | ok a s' =>
    obtain ⟨ha, hs'⟩ := hx.of_ok hs h
    rw [bind_ok h]
    exact hf a ha s' hs'
  | error e s' =>
    rw [bind_error h]
    exact hx.of_error hs h

theorem safe_get_bind {f : σ → EStateM Fault σ β} (hf : ∀ s, P s → Safe P Q' (f s)) :
    Safe P Q' (get >>= f) := fun s hs => hf s hs s hs

theorem safe_modify {f : σ → σ} (hf : ∀ s, P s → P (f s)) :
    Safe P (fun _ => True) (modify f : EStateM Fault σ PUnit) := fun s hs => ⟨trivial, hf s hs⟩

theorem safe_set {s : σ} (hs : P s) : Safe P (fun _ => True) (set s : EStateM Fault σ PUnit) :=
  fun _ _ => ⟨trivial, hs⟩

end

/-! ## Natives -/

/-- A function of the host works within a region: it makes no fatal errors and does not go on for
ever. -/
def HostFunction.Keeps (R : Region) (f : HostFunction) : Prop :=
  ∀ args : List Value, (∀ v ∈ args, R.Holds v) → Safe R.Clean R.Holds (f args)

theorem HeapM.safe_ofExcept {α : Type} {P : Heap → Prop} {Q : α → Prop}
    {x : Except RuntimeError α} (h : ∀ a, x = .ok a → Q a) : Safe P Q (HeapM.ofExcept x) := by
  cases x with
  | ok a => exact safe_pure (h a rfl)
  | error e => exact safe_throw e

theorem HeapM.safe_raise {α : Type} {P : Heap → Prop} {Q : α → Prop} (e : RuntimeError) :
    Safe P Q (HeapM.raise e) := safe_throw e

theorem HeapM.safe_check {α : Type} {P : Heap → Prop} (x : Except RuntimeError α) :
    Safe P (fun _ => True) (HeapM.ofExcept x) := HeapM.safe_ofExcept fun _ _ => trivial

namespace Builtin

variable {R : Region}

theorem safe_giveArray {items : List Value} (h : ∀ v ∈ items, R.Holds v) :
    Safe R.Clean R.Holds (giveArray items) := by
  intro g hg
  exact ⟨hg.newArrays _ (Nat.le_refl _), hg.newArray fun v hv => h v (by simpa using hv)⟩

/-- To change the elements of an array, to others that the region holds, and to go on. -/
theorem safe_changing {a : ArrayId} {f : Array Value → Array Value} {v : Value}
    (hf : ∀ items : Array Value, (∀ w ∈ items, R.Holds w) → ∀ w ∈ f items, R.Holds w)
    (hv : R.Holds v) : Safe R.Clean R.Holds (do
      changeArray a f
      pure v) :=
  safe_bind (safe_modify fun _ hg => hg.changeArray a fun ha => hf _ (hg.arrays a ha)) fun _ _ =>
    safe_pure hv

theorem findIndex_answers {h : Heap} (hc : h.Coded) (v : Value) : ∀ (xs : List Value) (i : Nat),
    ∃ found, findIndex h v xs i = some found
  | [], _ => ⟨_, rfl⟩
  | x :: xs, i => by
    obtain ⟨same, hsame⟩ := h.equal?_answers hc x v
    unfold findIndex
    rw [hsame]
    cases same with
    | true => exact ⟨_, rfl⟩
    | false => exact findIndex_answers hc v xs (i + 1)

theorem safe_find {g : Heap} (hg : g.Coded) (a : ArrayId) (v : Value) :
    Safe R.Clean (fun _ => True) (find g a v) := by
  obtain ⟨found, hfound⟩ := findIndex_answers hg v (g.array a).toList 0
  unfold find
  rw [hfound]
  exact safe_pure trivial

theorem safe_math (b : Builtin) (f : Number → Number) (v : Value) :
    Safe R.Clean R.Holds (math b f v) :=
  safe_bind (HeapM.safe_check _) fun _ _ =>
    safe_pure trivial

theorem safe_arrayArg (b : Builtin) {v : Value} (hv : R.Holds v) :
    Safe R.Clean R.arrays (HeapM.ofExcept (b.arrayArg v)) := by
  refine HeapM.safe_ofExcept fun a ha => ?_
  cases v with
  | array i =>
    cases ha
    exact hv
  | _ => cases ha

theorem safe_mapArg (b : Builtin) {v : Value} (hv : R.Holds v) :
    Safe R.Clean R.maps (HeapM.ofExcept (b.mapArg v)) := by
  refine HeapM.safe_ofExcept fun m hm => ?_
  cases v with
  | map i =>
    cases hm
    exact hv
  | _ => cases hm

theorem safe_drawInteger (lo hi : Value) : Safe R.Clean R.Holds (drawInteger lo hi) := by
  unfold drawInteger
  refine safe_bind (HeapM.safe_check _) fun _ _ => ?_
  refine safe_bind (HeapM.safe_check _) fun _ _ => ?_
  refine safe_get_bind fun g hg => ?_
  dsimp only
  split
  · exact safe_throw _
  · refine safe_bind (safe_set ?_) fun _ _ => safe_pure trivial
    exact hg.of_eq (hg.coded.of_eq (fun _ => rfl) rfl) rfl rfl rfl rfl rfl

theorem safe_cutSlice {args : List Value} (h : ∀ v ∈ args, R.Holds v) :
    Safe R.Clean R.Holds (cutSlice args) := by
  unfold cutSlice
  split
  · exact safe_throw _
  · rename_i subject bounds
    split
    · exact safe_throw _
    · refine safe_bind (safe_arrayArg slice (h subject List.mem_cons_self)) fun a ha => ?_
      refine safe_get_bind fun g hg => ?_
      refine safe_bind (HeapM.safe_check _) fun _ _ => ?_
      refine safe_bind (HeapM.safe_check _) fun _ _ => ?_
      refine safe_giveArray fun v hv => hg.elements ha v ?_
      exact List.mem_of_mem_drop (List.mem_of_mem_take hv)

theorem safe_sorted (vs : List Value) :
    Safe R.Clean (fun ws => ∀ w ∈ ws, R.Holds w) (HeapM.ofExcept (sorted vs)) := by
  refine HeapM.safe_ofExcept fun ws h => ?_
  unfold sorted at h
  split at h
  · cases h
    intro w hw
    obtain ⟨_, -, rfl⟩ := List.mem_map.mp hw
    exact trivial
  · cases h
    intro w hw
    obtain ⟨_, -, rfl⟩ := List.mem_map.mp hw
    exact trivial
  · cases h

theorem safe_parse (text : String) : Safe R.Clean R.Holds (do
    let (v, h) ← HeapM.ofExcept ((← get).parse text)
    set h
    pure v) := by
  refine safe_get_bind fun g hg => ?_
  refine safe_bind (Q := fun r : Value × Heap => R.Holds r.1 ∧ R.Clean r.2)
    (HeapM.safe_ofExcept fun r hr => ?_) fun r hr => ?_
  · unfold Heap.parse at hr
    split at hr
    · cases hr
      exact hg.ofJson _
    · cases hr
  · exact safe_bind (safe_set hr.2) fun _ _ => safe_pure hr.1

/-- **Builtins stay within a region.** -/
theorem safe_apply (b : Builtin) (sink : SinkId) {args : List Value}
    (h : ∀ v ∈ args, R.Holds v) : Safe R.Clean R.Holds (b.apply sink args) := by
  unfold apply
  split
  all_goals
    try simp only [List.mem_cons, List.not_mem_nil, or_false, forall_eq_or_imp, forall_eq] at h
  -- First what every builtin shares: its arguments are checked and read in order, and a result that
  -- is no reference needs nothing.
  all_goals
    repeat' first
      | exact trivial
      | exact h
      | exact h.1
      | with_reducible exact HeapM.safe_raise _
      | with_reducible exact safe_math _ _ _
      | with_reducible exact safe_drawInteger _ _
      | with_reducible exact safe_cutSlice h
      | with_reducible exact safe_parse _
      | with_reducible exact safe_giveArray (Region.holds_strings _ _)
      | with_reducible refine safe_pure ?_
      | with_reducible refine safe_get_bind fun g hg => ?_
      | with_reducible refine safe_bind (safe_arrayArg _ h) fun a ha => ?_
      | with_reducible refine safe_bind (safe_arrayArg _ h.1) fun a ha => ?_
      | with_reducible refine safe_bind (safe_mapArg _ h) fun a ha => ?_
      | with_reducible refine safe_bind (safe_mapArg _ h.1) fun a ha => ?_
      | with_reducible refine safe_bind (safe_sorted _) fun _ hs => ?_
      | with_reducible refine safe_bind (HeapM.safe_check _) fun _ _ => ?_
      | with_reducible refine safe_bind (safe_find hg.coded _ _) fun _ _ => ?_
      | split
      | dsimp only
  -- What is left are the builtins that write: the output, or a collection whose new items come from
  -- the old ones and the arguments.
  · exact safe_bind (safe_modify fun g hg => hg.writeLine sink _) fun _ _ => safe_pure trivial
  · refine safe_changing (fun items hitems w hw => ?_) h.1
    rcases Array.mem_push.mp hw with hw | rfl
    · exact hitems w hw
    · exact h.2
  · exact safe_changing (fun items hitems w hw => hitems w (mem_of_mem_pop hw))
      (Region.holds_getD fun v hv => hg.arrays a ha v (Array.mem_of_back? hv))
  · exact safe_changing (fun items hitems w hw =>
      hitems w (mem_of_mem_eraseIdxIfInBounds hw))
      (Region.holds_getD fun v hv => hg.arrays a ha v (Array.mem_of_getElem? hv))
  · refine safe_changing (fun items hitems w hw => ?_) h.1
    rcases Array.mem_append.mp hw with hw | hw
    · rw [Array.mem_singleton.mp hw]
      exact h.2
    · exact hitems w hw
  · exact safe_giveArray (hg.maps a ha).values
  · refine safe_bind (safe_set (hg.setMap _ fun hm => (hg.maps _ hm).erase _)) fun _ _ => ?_
    exact safe_pure (Region.holds_getD fun v hv => (hg.maps _ h.1).get? hv)
  · exact safe_changing (fun items hitems w hw =>
      hitems w (mem_of_mem_eraseIdxIfInBounds hw)) (hg.element h.1 _)
  · exact safe_changing (fun _ _ w hw => hs w (by simpa using hw)) h
  · exact safe_changing (fun items hitems w hw => hitems w (Array.mem_reverse.mp hw)) h
  · refine safe_changing (fun items hitems w hw => ?_) h.1
    rcases mem_of_mem_insertIdxIfInBounds hw with rfl | hw
    · exact h.2.2
    · exact hitems w hw
  · exact safe_changing (fun _ _ w hw => nomatch Array.not_mem_empty w hw) h
  · refine safe_bind (safe_set ?_) fun _ _ => safe_pure trivial
    exact hg.of_eq (hg.coded.of_eq (fun _ => rfl) rfl) rfl rfl rfl rfl rfl

end Builtin

/-- **Natives stay within a region**, given that the host's functions do. -/
theorem Native.safe_call {R : Region} {hosts : Array HostFunction}
    (hhosts : ∀ f ∈ hosts, f.Keeps R) (n : Native) {args : List Value}
    (h : ∀ v ∈ args, R.Holds v) : Safe R.Clean R.Holds (n.call hosts args) := by
  have hrun : Safe R.Clean R.Holds (n.run hosts args) := by
    unfold Native.run
    split
    · exact Builtin.safe_apply _ _ h
    · split
      · rename_i f hf
        exact hhosts f (Array.mem_of_getElem? hf) args h
      · exact safe_pure trivial
  unfold Native.call
  split
  · split
    · exact hrun
    · exact HeapM.safe_raise _
  · exact hrun

end TaskVm
