import TaskVm.Proofs.Computation

/-!
# What natives leave alone

Natives, and instructions that compute, change collections and make new objects. What tasks
and code rely on stays: existing channels, the stages of tasks, captured variables, closures
and code, with what is remembered about it. For the builtins this is proved here. Functions of
the host are not ours, so of them it is asked.
-/

namespace TaskVm

/-- One heap comes from another without anything that tasks share having changed. -/
structure Heap.Extends (h h' : Heap) : Prop where
  /-- New channels are empty and nobody waits for them. -/
  channels : ∃ fresh, h'.channels = h.channels ++ fresh ∧
    ∀ c ∈ fresh, ∃ n, c = Channel.ofCapacity n
  handles : h'.handles = h.handles
  cells : h'.cells = h.cells
  /-- New closures have captured nothing new. -/
  closures : ∃ fresh, h'.closures = h.closures ++ fresh ∧
    ∀ c ∈ fresh, ∀ u ∈ c.upvalues, u < h.cells.size
  templates : ∃ fresh, h'.templates = h.templates ++ fresh
  /-- Code is never changed, only remembered about. -/
  code : h.chunks.size ≤ h'.chunks.size ∧
    ∀ id < h.chunks.size, (h'.chunk id).code = (h.chunk id).code ∧
      (h'.chunk id).constants = (h.chunk id).constants

namespace Heap.Extends

theorem refl (h : Heap) : h.Extends h where
  channels := ⟨#[], by simp, by simp⟩
  handles := rfl
  cells := rfl
  closures := ⟨#[], by simp, by simp⟩
  templates := ⟨#[], by simp⟩
  code := ⟨Nat.le_refl _, fun _ _ => ⟨rfl, rfl⟩⟩

theorem trans {a b c : Heap} (hab : a.Extends b) (hbc : b.Extends c) : a.Extends c where
  channels := by
    obtain ⟨f, hf, hnew⟩ := hab.channels
    obtain ⟨g, hg, hnew'⟩ := hbc.channels
    refine ⟨f ++ g, by rw [hg, hf, Array.append_assoc], ?_⟩
    intro c hc
    rcases Array.mem_append.mp hc with hc | hc
    · exact hnew c hc
    · exact hnew' c hc
  handles := hbc.handles.trans hab.handles
  cells := hbc.cells.trans hab.cells
  closures := by
    obtain ⟨f, hf, hold⟩ := hab.closures
    obtain ⟨g, hg, hold'⟩ := hbc.closures
    refine ⟨f ++ g, by rw [hg, hf, Array.append_assoc], ?_⟩
    intro c hc u hu
    rcases Array.mem_append.mp hc with hc | hc
    · exact hold c hc u hu
    · rw [← hab.cells]
      exact hold' c hc u hu
  templates := by
    obtain ⟨f, hf⟩ := hab.templates
    obtain ⟨g, hg⟩ := hbc.templates
    exact ⟨f ++ g, by rw [hg, hf, Array.append_assoc]⟩
  code := by
    refine ⟨Nat.le_trans hab.code.1 hbc.code.1, fun id hid => ?_⟩
    obtain ⟨h1, h2⟩ := hab.code.2 id hid
    obtain ⟨h3, h4⟩ := hbc.code.2 id (Nat.lt_of_lt_of_le hid hab.code.1)
    exact ⟨h3.trans h1, h4.trans h2⟩

/-- A change of anything but shared objects and code. -/
theorem of_eq {h h' : Heap} (hch : h'.channels = h.channels) (hha : h'.handles = h.handles)
    (hce : h'.cells = h.cells) (hcl : h'.closures = h.closures)
    (hte : h'.templates = h.templates) (hck : h'.chunks = h.chunks) : h.Extends h' where
  channels := ⟨#[], by simp [hch], by simp⟩
  handles := hha
  cells := hce
  closures := ⟨#[], by simp [hcl], by simp⟩
  templates := ⟨#[], by simp [hte]⟩
  code := ⟨Nat.le_of_eq (congrArg Array.size hck).symm, fun id _ => by simp [Heap.chunk, hck]⟩

/-- The memory of where a global was found is not code. -/
theorem rememberSlot (h : Heap) (id : ChunkId) (constant : Nat) (vm : VmId) (slot : Nat) :
    h.Extends (h.rememberSlot id constant vm slot) where
  channels := ⟨#[], by simp [Heap.rememberSlot], by simp⟩
  handles := rfl
  cells := rfl
  closures := ⟨#[], by simp [Heap.rememberSlot], by simp⟩
  templates := ⟨#[], by simp [Heap.rememberSlot]⟩
  code := by
    refine ⟨by simp [Heap.rememberSlot], fun i hi => ?_⟩
    simp only [Heap.chunk, Heap.rememberSlot, Array.getD_eq_getD_getElem?, Array.getElem?_modify]
    split
    · rw [Array.getElem?_eq_getElem hi]
      exact ⟨rfl, rfl⟩
    · exact ⟨rfl, rfl⟩

end Heap.Extends

/-- One heap comes from another by computing: nothing that tasks share has changed, nor what is
remembered about code. -/
structure Heap.Collects (h h' : Heap) : Prop extends Heap.Extends h h' where
  chunks : h'.chunks = h.chunks

namespace Heap.Collects

theorem refl (h : Heap) : h.Collects h := ⟨.refl h, rfl⟩

theorem trans {a b c : Heap} (hab : a.Collects b) (hbc : b.Collects c) : a.Collects c :=
  ⟨hab.toExtends.trans hbc.toExtends, hbc.chunks.trans hab.chunks⟩

instance : IsPreorder Heap Heap.Collects where
  refl := refl
  trans _ _ _ := trans

theorem of_eq {h h' : Heap} (hch : h'.channels = h.channels) (hha : h'.handles = h.handles)
    (hce : h'.cells = h.cells) (hcl : h'.closures = h.closures)
    (hte : h'.templates = h.templates) (hck : h'.chunks = h.chunks) : h.Collects h' :=
  ⟨.of_eq hch hha hce hcl hte hck, hck⟩

variable (h : Heap)

theorem newArray (items : Array Value) : h.Collects (h.newArray items).2 :=
  of_eq rfl rfl rfl rfl rfl rfl

theorem newMap (m : OrderedMap Value) : h.Collects (h.newMap m).2 :=
  of_eq rfl rfl rfl rfl rfl rfl

theorem setArray (id : ArrayId) (items : Array Value) : h.Collects (h.setArray id items) :=
  of_eq rfl rfl rfl rfl rfl rfl

theorem setMap (id : MapId) (m : OrderedMap Value) : h.Collects (h.setMap id m) :=
  of_eq rfl rfl rfl rfl rfl rfl

theorem writeLine (id : SinkId) (line : String) : h.Collects (h.writeLine id line) :=
  of_eq rfl rfl rfl rfl rfl rfl

theorem newNative (n : Native) : h.Collects (h.newNative n).2 :=
  of_eq rfl rfl rfl rfl rfl rfl

theorem newChannel (n : Nat) : h.Collects (h.newChannel (.ofCapacity n)).2 where
  channels := ⟨#[.ofCapacity n], by simp [Heap.newChannel],
    fun c hc => ⟨n, by simpa using hc⟩⟩
  handles := rfl
  cells := rfl
  closures := ⟨#[], by simp [Heap.newChannel], by simp⟩
  templates := ⟨#[], by simp [Heap.newChannel]⟩
  code := ⟨Nat.le_refl _, fun _ _ => ⟨rfl, rfl⟩⟩
  chunks := rfl

end Heap.Collects

/-- A relation between heaps that allows what computing does. -/
class Heap.Permits (K : Heap → Heap → Prop) : Prop where
  of_collects {h h' : Heap} : h.Collects h' → K h h'

instance : Heap.Permits Heap.Extends := ⟨fun h => h.toExtends⟩

/-! ## Operations on the heap -/

theorem Heap.setIndex_collects {h h' : Heap} {collection key value : Value}
    (hs : h.setIndex collection key value = .ok h') : h.Collects h' := by
  unfold Heap.setIndex at hs
  split at hs
  · rename_i i
    cases hp : key.position (h.array i).size with
    | error e =>
      rw [hp] at hs
      cases hs
    | ok p =>
      rw [hp] at hs
      injection hs with hs
      exact hs ▸ Heap.Collects.setArray h i _
  · injection hs with hs
    exact hs ▸ Heap.Collects.setMap h _ _
  · cases hs

mutual

/-- A document becomes new collections only. -/
theorem Heap.ofJson_collects (h : Heap) : ∀ j : Json, h.Collects (h.ofJson j).2
  | .null | .bool _ | .integer _ | .float _ | .string _ => Heap.Collects.refl h
  | .array items =>
    (Heap.ofJsonItems_collects h items).trans (Heap.Collects.newArray _ _)
  | .object members =>
    (Heap.ofJsonMembers_collects h members).trans (Heap.Collects.newMap _ _)

theorem Heap.ofJsonItems_collects (h : Heap) :
    ∀ js : List Json, h.Collects (h.ofJsonItems js).2
  | [] => Heap.Collects.refl h
  | item :: rest =>
    (Heap.ofJson_collects h item).trans (Heap.ofJsonItems_collects _ rest)

theorem Heap.ofJsonMembers_collects (h : Heap) :
    ∀ js : List (String × Json), h.Collects (h.ofJsonMembers js).2
  | [] => Heap.Collects.refl h
  | (_, item) :: rest =>
    (Heap.ofJson_collects h item).trans (Heap.ofJsonMembers_collects _ rest)

end

/-! ## Natives -/

/-- A function of the host does nothing a builtin could not do. -/
def HostFunction.Tame (f : HostFunction) : Prop :=
  ∀ args h, Leads Heap.Extends (f args) h

/-- A function of the host does no more to the heap than a relation allows. -/
def HostFunction.Respects (K : Heap → Heap → Prop) (f : HostFunction) : Prop :=
  ∀ args h, Leads K (f args) h

theorem HeapM.leads_ofExcept {α : Type} (x : Except RuntimeError α) (h : Heap) :
    Leads Heap.Collects (HeapM.ofExcept x) h := by
  cases x with
  | ok a => exact Heap.Collects.refl h
  | error e => exact Heap.Collects.refl h

theorem HeapM.leads_raise {α : Type} (e : RuntimeError) (h : Heap) :
    Leads Heap.Collects (HeapM.raise e : HeapM α) h := Heap.Collects.refl h

theorem HeapM.leads_set {h h' : Heap} (hh : h.Collects h') :
    Leads Heap.Collects (set h' : HeapM PUnit) h := hh

theorem HeapM.ofExcept_eq_ok {α : Type} {x : Except RuntimeError α} {h h' : Heap} {a : α}
    (hx : HeapM.ofExcept x h = .ok a h') : x = .ok a ∧ h' = h := by
  cases x with
  | ok b =>
    injection hx with hb hh
    exact ⟨congrArg Except.ok hb, hh.symm⟩
  | error e => nomatch hx

namespace Builtin

theorem leads_giveArray (items : List Value) (h : Heap) :
    Leads Heap.Collects (giveArray items) h := Heap.Collects.newArray h _

theorem leads_changeArray (a : ArrayId) (f : Array Value → Array Value) (h : Heap) :
    Leads Heap.Collects (changeArray a f) h := Heap.Collects.of_eq rfl rfl rfl rfl rfl rfl

theorem leads_find (g : Heap) (a : ArrayId) (v : Value) (h : Heap) :
    Leads Heap.Collects (find g a v) h := by
  unfold find
  split
  · exact leads_pure _ h
  · exact leads_throw _ h

theorem leads_math (b : Builtin) (f : Number → Number) (v : Value) (h : Heap) :
    Leads Heap.Collects (math b f v) h :=
  leads_bind (HeapM.leads_ofExcept _ h) fun _ s' _ => leads_pure _ s'

theorem leads_drawInteger (lo hi : Value) (h : Heap) :
    Leads Heap.Collects (drawInteger lo hi) h := by
  unfold drawInteger
  refine leads_bind (HeapM.leads_ofExcept _ h) fun _ s' _ => ?_
  refine leads_bind (HeapM.leads_ofExcept _ s') fun _ s' _ => ?_
  refine leads_get_bind ?_
  dsimp only
  split
  · exact leads_throw _ s'
  · exact Heap.Collects.of_eq rfl rfl rfl rfl rfl rfl

theorem leads_cutSlice (args : List Value) (h : Heap) :
    Leads Heap.Collects (cutSlice args) h := by
  unfold cutSlice
  split
  · exact leads_throw _ h
  · split
    · exact leads_throw _ h
    · refine leads_bind (HeapM.leads_ofExcept _ h) fun _ s' _ => ?_
      refine leads_get_bind ?_
      refine leads_bind (HeapM.leads_ofExcept _ s') fun _ s' _ => ?_
      refine leads_bind (HeapM.leads_ofExcept _ s') fun _ s' _ => ?_
      exact leads_giveArray _ s'

theorem leads_parse (text : String) (h : Heap) : Leads Heap.Collects (do
    let (v, h) ← HeapM.ofExcept (h.parse text)
    set h
    pure v) h := by
  refine leads_bind (HeapM.leads_ofExcept _ h) fun a s' ha => ?_
  obtain ⟨ha, hs⟩ := HeapM.ofExcept_eq_ok ha
  subst hs
  refine leads_bind (HeapM.leads_set ?_) fun _ s' _ => leads_pure _ s'
  unfold Heap.parse at ha
  split at ha
  · injection ha with ha
    rw [← ha]
    exact Heap.ofJson_collects _ _
  · cases ha

/-- **No builtin touches what tasks share.** -/
theorem apply_collects (b : Builtin) (sink : SinkId) (args : List Value) (h : Heap) :
    Leads Heap.Collects (b.apply sink args) h := by
  unfold apply
  split
  all_goals
    repeat' first
      | with_reducible exact leads_pure _ _
      | with_reducible exact leads_throw _ _
      | with_reducible exact HeapM.leads_raise _ _
      | with_reducible exact leads_giveArray _ _
      | with_reducible exact leads_changeArray _ _ _
      | with_reducible exact leads_find _ _ _ _
      | with_reducible exact leads_math _ _ _ _
      | with_reducible exact leads_drawInteger _ _ _
      | with_reducible exact leads_cutSlice _ _
      | with_reducible exact leads_parse _ _
      | with_reducible exact HeapM.leads_ofExcept _ _
      | with_reducible refine leads_get_bind ?_
      | with_reducible refine leads_bind ?_ fun _ _ _ => ?_
      | split
  · exact leads_modify (Heap.Collects.writeLine _ sink _)
  · exact HeapM.leads_set (Heap.Collects.setMap _ _ _)
  · exact HeapM.leads_set (Heap.Collects.of_eq rfl rfl rfl rfl rfl rfl)

end Builtin

/-- **No native touches what tasks share**, given that the host's functions do not. -/
theorem Native.call_respects {K : Heap → Heap → Prop} [Heap.Permits K]
    {hosts : Array HostFunction} (ht : ∀ f ∈ hosts, f.Respects K) (n : Native)
    (args : List Value) (h : Heap) : Leads K (n.call hosts args) h := by
  have hidle : K h h := Heap.Permits.of_collects (Heap.Collects.refl h)
  have hrun : Leads K (n.run hosts args) h := by
    unfold Native.run
    split
    · exact Heap.Permits.of_collects (Builtin.apply_collects _ _ _ h)
    · split
      · rename_i f hf
        exact ht f (Array.mem_of_getElem? hf) args h
      · exact hidle
  unfold Native.call
  split
  · split
    · exact hrun
    · exact hidle
  · exact hrun

end TaskVm
