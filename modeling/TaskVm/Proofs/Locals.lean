import Mathlib.Data.List.TakeWhile
import TaskVm.Proofs.Boundaries
import TaskVm.Proofs.Stirring
import TaskVm.Proofs.Variables

/-!
# The locals of a main chunk

A function says how many locals it has. A chunk that is run by itself does not, and its code is
searched for the locals that it addresses, so that its frame has room for them below the operands.

The search knows the instructions that name a local, and it does not look at what closures capture.
And the number of locals is kept to 16 bits, which is one less than what a word can name. Where
neither of these matters, the locals of the frame are its own from the beginning to the end.
-/

namespace TaskVm

open Exec Relation

/-! ## What instructions address -/

namespace Code

/-- What the closure that is made by the instruction at an offset captures: whether it is a local,
and which. -/
def captures (code : Code) (offset : Nat) : List (Bool × Nat) :=
  (List.range (code.byteAt (offset + 3)).toNat).map fun i =>
    ((code.byteAt (offset + 4 + 2 * i)).toNat != 0, (code.byteAt (offset + 5 + 2 * i)).toNat)

/-- The locals that the closure captures which the instruction at an offset makes, if it makes
one. -/
def capturedLocals (code : Code) (offset : Nat) : List Nat :=
  match code.opcode? offset with
  | some .makeClosure => ((code.captures offset).filter Prod.fst).map Prod.snd
  | _ => []

/-- The locals that the instruction at an offset addresses. -/
def addressed (code : Code) (offset : Nat) : List Nat :=
  (code.localSlot? offset).toList ++ code.capturedLocals offset

variable {code : Code} {offset : Nat} {op : Opcode}

theorem addressed_word (hcode : code.opcode? offset = some op)
    (hop : op = .getLocal ∨ op = .setLocal ∨ op = .catchInto) :
    code.addressed offset = [(code.wordAt (offset + 1)).toNat] := by
  rcases hop with rfl | rfl | rfl <;> (rw [addressed, localSlot?, capturedLocals, hcode]; rfl)

theorem addressed_byte (hcode : code.opcode? offset = some op)
    (hop : op = .loadFast ∨ op = .storeFast) :
    code.addressed offset = [(code.byteAt (offset + 1)).toNat] := by
  rcases hop with rfl | rfl <;> (rw [addressed, localSlot?, capturedLocals, hcode]; rfl)

theorem addressed_captures (hcode : code.opcode? offset = some .makeClosure) :
    code.addressed offset = ((code.captures offset).filter Prod.fst).map Prod.snd := by
  rw [addressed, localSlot?, capturedLocals, hcode]
  rfl

end Code

/-- The local that is read, changed or captured. -/
def Act.local? : Act → Option Nat
  | .localRead x _ | .localSet x _ | .captured x _ _ => some x.index
  | _ => none

/-- The instructions that address locals of their frame. -/
def Opcode.isLocal : Opcode → Bool
  | .getLocal | .setLocal | .loadFast | .storeFast | .catchInto | .makeClosure => true
  | _ => false

variable {s s₁ s' : Turn} {f : Frame} {fs : List Frame}

/-- Locals have been addressed, one after the other. -/
def Turn.Addresses (s : Turn) (slots : List Nat) (s' : Turn) : Prop :=
  ∃ acts, s'.acts = s.acts ++ acts ∧ acts.filterMap Act.local? = slots

namespace Turn.Addresses

variable {slots slots' : List Nat} {a : Act}

theorem none (h : s'.acts = s.acts) : s.Addresses [] s' := ⟨[], by rw [h, List.append_nil], rfl⟩

theorem trans (h : s.Addresses slots s₁) (h' : s₁.Addresses slots' s') :
    s.Addresses (slots ++ slots') s' := by
  obtain ⟨acts, hacts, hslots⟩ := h
  obtain ⟨acts', hacts', hslots'⟩ := h'
  exact ⟨acts ++ acts', by rw [hacts', hacts, List.append_assoc],
    by rw [List.filterMap_append, hslots, hslots']⟩

theorem one {slot : Nat} (h : s'.acts = s.acts ++ [a]) (ha : a.local? = some slot) :
    s.Addresses [slot] s' := ⟨[a], h, by rw [List.filterMap_cons, ha, List.filterMap_nil]⟩

end Turn.Addresses

namespace Exec

/-! ### Each of them -/

theorem readByte_eq_byteAt {b : Nat} (h : readByte s = .ok b s') (hf : s.task.frames = f :: fs) :
    b = ((f.code s.heap).byteAt f.ip).toNat := by
  obtain ⟨g, gs, byte, hg, hbyte, rfl, -⟩ := readByte_eq_ok h
  obtain ⟨rfl, rfl⟩ := List.cons.inj (hg.symm.trans hf)
  rw [Code.byteAt, Array.getD_eq_getD_getElem?, hbyte, Option.getD_some]

theorem localIndex_frame {slot index : Nat} (h : localIndex slot s = .ok index s')
    (hf : s.task.frames = f :: fs) : s' = s ∧ index = f.stackBase + slot := by
  obtain ⟨rfl, g, gs, hg, rfl⟩ := localIndex_eq_ok s h
  obtain ⟨rfl, rfl⟩ := List.cons.inj (hg.symm.trans hf)
  exact ⟨rfl, rfl⟩

theorem addresses_pushLocal {slot : Nat} {u : Unit} (h : pushLocal slot s = .ok u s')
    (hf : s.task.frames = f :: fs) : s.Addresses [slot] s' := by
  obtain ⟨index, s₁, hindex, h⟩ := bind_eq_ok.mp h
  obtain ⟨rfl, rfl⟩ := localIndex_frame hindex hf
  rw [get_bind_apply] at h
  obtain ⟨_, s₂, hnote, h⟩ := bind_eq_ok.mp h
  cases hnote
  cases h
  refine .one rfl ?_
  rw [localAt_eq hf]
  rfl

theorem addresses_setSlot {slot : Nat} {v : Value} {u : Unit}
    (h : setSlot (f.stackBase + slot) v s = .ok u s') (hf : s.task.frames = f :: fs) :
    s.Addresses [slot] s' := by
  cases h
  exact .one rfl (congrArg (fun x : Variable => some x.index)
    (localAt_eq (t := { s.task with stack := s.task.stack.setIfInBounds _ v }) hf slot))

/-- The captures that are read are those of the layout. -/
theorem readCaptures_eq_ok : ∀ {n : Nat} {s s' : Turn} {f : Frame} {cs : List (Bool × Nat)},
    readCaptures n s = .ok cs s' → s.task.frames = f :: fs →
    cs = (List.range n).map fun i => (((f.code s.heap).byteAt (f.ip + 2 * i)).toNat != 0,
      ((f.code s.heap).byteAt (f.ip + 1 + 2 * i)).toNat)
  | 0, _, _, _, _, h, _ => by
    cases h
    rfl
  | n + 1, s, s', f, cs, h, hf => by
    obtain ⟨isLocal, s₁, h₁, h⟩ := bind_eq_ok.mp h
    obtain ⟨index, s₂, h₂, h⟩ := bind_eq_ok.mp h
    obtain ⟨rest, s₃, h₃, h⟩ := bind_eq_ok.mp h
    cases h
    have hp₁ := (takes_readByte s).of_ok h₁
    have hf₁ := hp₁.frames hf
    have hp₂ := hp₁.trans ((takes_readByte s₁).of_ok h₂)
    have hf₂ := hp₂.frames hf
    rw [readByte_eq_byteAt h₁ hf, readByte_eq_byteAt h₂ hf₁, readCaptures_eq_ok h₃ hf₂, hp₁.heap,
      hp₂.heap, List.range_succ_eq_map, List.map_cons, List.map_map]
    refine congrArg (_ :: ·) (List.map_congr_left fun i _ => ?_)
    rw [Function.comp_apply, show f.ip + 2 * i.succ = f.ip + (1 + 1) + 2 * i by omega,
      show f.ip + 1 + 2 * i.succ = f.ip + (1 + 1) + 1 + 2 * i by omega]
    rfl

theorem addresses_captureCell {capture : Bool × Nat} {c : CellId}
    (h : captureCell f capture s = .ok c s') (hf : s.task.frames = f :: fs) :
    s.Addresses (([capture].filter Prod.fst).map Prod.snd) s' ∧ s'.task.frames = f :: fs := by
  obtain ⟨isLocal, slot⟩ := capture
  cases isLocal with
  | true =>
    cases h
    refine ⟨.one rfl ?_, hf⟩
    rw [localAt_eq hf]
    rfl
  | false =>
    rw [captureCell, get_bind_apply] at h
    cases hc : (s.heap.closure f.closure).upvalues[slot]? with
    | none =>
      rw [hc] at h
      cases h
    | some cell =>
      rw [hc] at h
      cases h
      exact ⟨.none rfl, hf⟩

theorem addresses_captureCells : ∀ {cs : List (Bool × Nat)} {s s' : Turn} {cells : List CellId},
    captureCells f cs s = .ok cells s' → s.task.frames = f :: fs →
    s.Addresses ((cs.filter Prod.fst).map Prod.snd) s'
  | [], _, _, _, h, _ => by
    cases h
    exact .none rfl
  | capture :: cs, s, s', cells, h, hf => by
    obtain ⟨c, s₁, hc, h⟩ := bind_eq_ok.mp h
    obtain ⟨rest, s₂, hrest, h⟩ := bind_eq_ok.mp h
    cases h
    obtain ⟨haddresses, hf₁⟩ := addresses_captureCell hc hf
    rw [← List.singleton_append, List.filter_append, List.map_append]
    exact haddresses.trans (addresses_captureCells hrest hf₁)

/-- **What these instructions address is what the layout says**: the same locals in the same
order. -/
theorem execute_addresses {op : Opcode} {flow : Flow} {offset : Nat} (hop : op.isLocal)
    (hf : s.task.frames = f :: fs) (hip : f.ip = offset + 1)
    (hcode : (f.code s.heap).opcode? offset = some op) (h : execute op s = .ok flow s') :
    s.Addresses ((f.code s.heap).addressed offset) s' := by
  -- Each is followed to the one step that addresses a local, behind others that address none.
  cases op
  case getLocal =>
    obtain ⟨w, s₁, hw, h⟩ := bind_eq_ok.mp h
    obtain ⟨_, s₂, hlocal, h⟩ := bind_eq_ok.mp h
    cases h
    have hp := (takes_readWord s).of_ok hw
    rw [Code.addressed_word hcode (by decide), ← hip, ← readWord_eq_ok hw hf]
    exact (Turn.Addresses.none hp.acts).trans (addresses_pushLocal hlocal (hp.frames hf))
  case loadFast =>
    obtain ⟨b, s₁, hb, h⟩ := bind_eq_ok.mp h
    obtain ⟨_, s₂, hlocal, h⟩ := bind_eq_ok.mp h
    cases h
    have hp := (takes_readByte s).of_ok hb
    rw [Code.addressed_byte hcode (by decide), ← hip, ← readByte_eq_byteAt hb hf]
    exact (Turn.Addresses.none hp.acts).trans (addresses_pushLocal hlocal (hp.frames hf))
  case setLocal =>
    obtain ⟨w, s₁, hw, h⟩ := bind_eq_ok.mp h
    obtain ⟨index, s₂, hindex, h⟩ := bind_eq_ok.mp h
    obtain ⟨v, s₃, hv, h⟩ := bind_eq_ok.mp h
    obtain ⟨_, s₄, hset, h⟩ := bind_eq_ok.mp h
    cases h
    have hp := (takes_readWord s).of_ok hw
    obtain ⟨rfl, rfl⟩ := localIndex_frame hindex (hp.frames hf)
    obtain ⟨-, rfl⟩ := ofExcept_eq_ok s₂ hv
    rw [Code.addressed_word hcode (by decide), ← hip, ← readWord_eq_ok hw hf]
    exact (Turn.Addresses.none hp.acts).trans (addresses_setSlot hset (hp.frames hf))
  case storeFast =>
    obtain ⟨b, s₁, hb, h⟩ := bind_eq_ok.mp h
    obtain ⟨v, s₂, hv, h⟩ := bind_eq_ok.mp h
    obtain ⟨index, s₃, hindex, h⟩ := bind_eq_ok.mp h
    obtain ⟨_, s₄, hset, h⟩ := bind_eq_ok.mp h
    cases h
    have hp := (takes_readByte s).of_ok hb
    obtain ⟨-, rfl⟩ := pop_eq_ok hv
    obtain ⟨rfl, rfl⟩ := localIndex_frame hindex (hp.frames hf)
    rw [Code.addressed_byte hcode (by decide), ← hip, ← readByte_eq_byteAt hb hf]
    refine Turn.Addresses.trans (.none ?_) (addresses_setSlot hset (hp.frames hf))
    exact hp.acts
  case catchInto =>
    obtain ⟨w, s₁, hw, h⟩ := bind_eq_ok.mp h
    obtain ⟨_, s₂, hdrop, h⟩ := bind_eq_ok.mp h
    obtain ⟨v, s₃, hv, h⟩ := bind_eq_ok.mp h
    obtain ⟨index, s₄, hindex, h⟩ := bind_eq_ok.mp h
    obtain ⟨_, s₅, hset, h⟩ := bind_eq_ok.mp h
    cases h
    have hp := (takes_readWord s).of_ok hw
    obtain ⟨_, hok, hframes, -, -, hacts⟩ := dropHandler_ok s₁
    cases hok.symm.trans hdrop
    obtain ⟨-, rfl⟩ := pop_eq_ok hv
    have hf₂ := hframes.trans (hp.frames hf)
    obtain ⟨rfl, rfl⟩ := localIndex_frame hindex hf₂
    rw [Code.addressed_word hcode (by decide), ← hip, ← readWord_eq_ok hw hf]
    refine Turn.Addresses.trans (.none ?_) (addresses_setSlot hset hf₂)
    exact hacts.trans hp.acts
  case makeClosure =>
    obtain ⟨_, s', hmake, h⟩ := bind_eq_ok.mp h
    cases h
    obtain ⟨w, s₁, hw, h⟩ := bind_eq_ok.mp hmake
    obtain ⟨v, s₂, hv, h⟩ := bind_eq_ok.mp h
    obtain rfl := constant_state hv
    cases v with
    | function template =>
      obtain ⟨n, s₃, hn, h⟩ := bind_eq_ok.mp h
      obtain ⟨cs, s₄, hcs, h⟩ := bind_eq_ok.mp h
      obtain ⟨g, s₅, hg, h⟩ := bind_eq_ok.mp h
      obtain ⟨cells, s₆, hcells, h⟩ := bind_eq_ok.mp h
      obtain ⟨id, s₇, hid, h⟩ := bind_eq_ok.mp h
      cases hid
      cases h
      have hp₁ := (takes_readWord s).of_ok hw
      have hp₂ := hp₁.trans ((takes_readByte s₂).of_ok hn)
      have hp₃ := hp₂.trans ((takes_readCaptures n s₃).of_ok hcs)
      obtain ⟨rfl, gs, hgs⟩ := frame_eq_ok s₄ hg
      obtain ⟨rfl, rfl⟩ := List.cons.inj (hgs.symm.trans (hp₃.frames hf))
      have hcaptures : cs = (f.code s.heap).captures offset := by
        rw [readCaptures_eq_ok hcs (hp₂.frames hf), readByte_eq_byteAt hn (hp₁.frames hf),
          hp₁.heap, hp₂.heap, Code.captures]
        show (List.range ((f.code s.heap).byteAt (f.ip + 2)).toNat).map _ = _
        rw [hip]
        rfl
      rw [Code.addressed_captures hcode, ← hcaptures]
      have haddresses := (Turn.Addresses.none hp₃.acts).trans (addresses_captureCells hcells hgs)
      exact haddresses
    | _ => cases h
  all_goals cases hop

end Exec

/-! ## Searching for locals -/

namespace Code

variable {code : Code}

/-- The code can be read from the beginning to the end. -/
def Linear (code : Code) : Prop := ∀ item ∈ code.items, item.isInstruction = true

instance (code : Code) : Decidable code.Linear :=
  inferInstanceAs (Decidable (∀ item ∈ code.items, item.isInstruction = true))

/-- The locals that instructions name. -/
def namedLocals (code : Code) : List Nat :=
  code.items.filterMap fun item => code.localSlot? (Heap.itemOffset item)

/-- The locals that closures capture. -/
def allCaptured (code : Code) : List Nat :=
  code.items.flatMap fun item => code.capturedLocals (Heap.itemOffset item)

/-- The locals that instructions address. -/
def allAddressed (code : Code) : List Nat :=
  code.items.flatMap fun item => code.addressed (Heap.itemOffset item)

theorem mem_allAddressed {slot : Nat} :
    slot ∈ code.allAddressed ↔ slot ∈ code.namedLocals ∨ slot ∈ code.allCaptured := by
  simp only [allAddressed, namedLocals, allCaptured, addressed, List.mem_flatMap, List.mem_append,
    List.mem_filterMap, Option.mem_toList, ← exists_or, ← and_or_left]

theorem Linear.leading (h : code.Linear) : code.leadingInstructions = code.items := by
  rw [leadingInstructions_eq]
  exact List.takeWhile_eq_self_iff.mpr h

/-- A local is counted exactly when one is named that does not come before it. -/
theorem Linear.lt_localSlots_iff (h : code.Linear) {slot : Nat} :
    slot < code.localSlots ↔ ∃ named ∈ code.namedLocals, slot ≤ named := by
  rw [Code.lt_localSlots_iff, h.leading]
  constructor
  · rintro ⟨item, hitem, hlt⟩
    cases item with
    | invalid offset => nomatch h _ hitem
    | instruction offset length =>
      cases hnamed : code.localSlot? offset with
      | none =>
        rw [slotsNeeded, hnamed] at hlt
        cases hlt
      | some named =>
        rw [slotsNeeded, hnamed] at hlt
        exact ⟨named, List.mem_filterMap.mpr ⟨_, hitem, hnamed⟩, Nat.le_of_lt_succ hlt⟩
  · rintro ⟨named, hnamed, hle⟩
    obtain ⟨item, hitem, hslot⟩ := List.mem_filterMap.mp hnamed
    refine ⟨item, hitem, ?_⟩
    cases item with
    | invalid offset => nomatch h _ hitem
    | instruction offset length =>
      rw [slotsNeeded, show code.localSlot? offset = some named from hslot]
      exact Nat.lt_succ_of_le hle

/-- The search finds room for all locals if it is not for the last one that a word can name, and not
for one that is only captured and comes after all that are named. -/
def SearchSuffices (code : Code) : Prop :=
  65535 ∉ code.namedLocals ∧ ∀ slot ∈ code.allCaptured, ∃ named ∈ code.namedLocals, slot ≤ named

instance (code : Code) : Decidable code.SearchSuffices := inferInstanceAs (Decidable (_ ∧ _))

theorem namedLocals_lt {slot : Nat} (h : slot ∈ code.namedLocals) : slot < 65536 := by
  obtain ⟨item, -, hslot⟩ := List.mem_filterMap.mp h
  have hword := (code.wordAt (Heap.itemOffset item + 1)).toNat_lt
  have hbyte := (code.byteAt (Heap.itemOffset item + 1)).toNat_lt
  unfold localSlot? at hslot
  split at hslot <;> cases hslot <;> omega

/-- **This is the exact condition** under which there is room for all locals. -/
theorem Linear.room_iff (h : code.Linear) :
    (∀ slot ∈ code.allAddressed, slot < min code.localSlots 65535) ↔ code.SearchSuffices := by
  constructor
  · intro hroom
    refine ⟨fun hlast => ?_, fun slot hslot => ?_⟩
    · have hlt := hroom 65535 (mem_allAddressed.mpr (.inl hlast))
      omega
    · have hlt := hroom slot (mem_allAddressed.mpr (.inr hslot))
      exact h.lt_localSlots_iff.mp (by omega)
  · -- A local that is captured is below one that is named, and is counted with it.
    rintro ⟨hlast, hcaptured⟩ slot hslot
    obtain ⟨named, hnamed, hle⟩ : ∃ named ∈ code.namedLocals, slot ≤ named := by
      rcases mem_allAddressed.mp hslot with hnamed | hslot
      · exact ⟨slot, hnamed, Nat.le_refl slot⟩
      · exact hcaptured slot hslot
    have hcounted := h.lt_localSlots_iff.mpr ⟨named, hnamed, hle⟩
    have hbound := namedLocals_lt hnamed
    have hne : named ≠ 65535 := fun heq => hlast (heq ▸ hnamed)
    omega

end Code

/-! ## A frame stays as it is -/

/-- As long as the frame of an activation is there, it is the same but for its place in the code. -/
structure Task.Continues (f : Frame) (t : Task) : Prop where
  entered : f.activation < t.activations
  same : ∀ g ∈ t.frames, g.activation = f.activation → g = { f with ip := g.ip }

namespace Task.Continues

variable {t t' : Task}

theorem of_subset (h : t.Continues f) (hframes : t'.frames ⊆ t.frames)
    (ha : t'.activations = t.activations) : t'.Continues f :=
  ⟨ha ▸ h.entered, fun g hg => h.same g (hframes hg)⟩

/-- The innermost frame goes on elsewhere. -/
theorem goto (h : t.Continues f) {g : Frame} {gs : List Frame} {ip : Nat} (hg : g ∈ t.frames)
    (hgs : gs ⊆ t.frames) (ht : t'.frames = { g with ip } :: gs)
    (ha : t'.activations = t.activations) : t'.Continues f := by
  refine ⟨ha ▸ h.entered, fun g' hg' hact => ?_⟩
  rcases List.mem_cons.mp (ht ▸ hg') with rfl | hg'
  · exact congrArg (fun k : Frame => { k with ip }) (h.same g hg hact)
  · exact h.same g' (hgs hg') hact

theorem deed (h : s.task.Continues f) (hu : s.task.Upright s.heap) (hd : Deed s s') :
    s'.task.Continues f := by
  cases hd with
  | change hc =>
    cases hc with
    | @writeCell cell hc v =>
      obtain ⟨cells, tasks, stack, touched, hs⟩ := writeCell_frame s cell v
      rw [hs]
      exact ⟨h.entered, h.same⟩
    | @goto g gs hg ip hip =>
      exact h.goto (hg ▸ List.mem_cons_self) (hg ▸ List.subset_cons_self g gs) rfl rfl
    | @enter g =>
      -- The number of a new activation has not been given out before.
      refine ⟨Nat.lt_succ_of_lt h.entered, fun g' hg' hact => ?_⟩
      rcases List.mem_cons.mp hg' with rfl | hg'
      · exact absurd hact.symm (Nat.ne_of_lt h.entered)
      · exact h.same g' hg' hact
    | @leave g callers hg => exact h.of_subset (hg ▸ List.subset_cons_self g callers) rfl
    | _ => exact ⟨h.entered, h.same⟩
  | unwind hh v =>
    obtain ⟨-, g, callers, hg, -, hframes⟩ := Turn.unwind_resumes hu hh v
    have hsub : g :: callers ⊆ s.task.frames := hg ▸ List.drop_subset _ _
    exact h.goto (hsub List.mem_cons_self) (fun _ hk => hsub (List.mem_cons_of_mem g hk)) hframes
      (s.unwind_handlers v).2.1
  | _ => exact ⟨h.entered, h.same⟩

theorem deeds (h : s.task.Continues f) (hu : s.Upright) (hds : Deeds s s') :
    s'.task.Continues f := by
  induction hds with
  | refl => exact h
  | tail hds hd ih => exact ih.deed (upright_of_deeds hds hu).running hd

end Task.Continues

namespace Machine

variable {ok : Machine → Prop} {m m₀ : Machine} {id : TaskId}

/-- **So it does in any run.** -/
theorem Run.continues {hist : List Act} (h : Run ok m₀ hist m) (hm : m₀.Fit) (hu : m₀.Upright)
    (hf : m₀.Keeps id (Task.Continues f)) : m.Keeps id (Task.Continues f) := by
  induction h with
  | refl => exact hf
  | @tail hist acts m m' hrun hmove ih =>
    have hfit := hrun.fit hm
    refine hmove.keeps hfit ih (fun _ t hr _ ht => ?_) fun _ t t' _ hrests ht => ?_
    · exact ht.deeds ((hrun.upright hm hu).turn hr) (Turn.deeds_advance hfit.tame)
    · exact ⟨hrests.activations ▸ ht.entered, hrests.frames ▸ ht.same⟩

/-! ## The frame of a main chunk -/

/-- The number of locals that are searched for is kept to 16 bits. -/
theorem mainTemplate_frameSlots (h : Heap) (chunk : ChunkId) :
    (mainTemplate h chunk).frameSlots = min (h.chunk chunk).code.localSlots 65535 := by
  have hcount : (UInt16.ofNat (min (h.chunk chunk).code.localSlots 65535)).toNat =
      min (h.chunk chunk).code.localSlots 65535 := UInt16.toNat_ofNat_of_lt' (by
    show _ < 65536
    omega)
  rw [mainTemplate, Template.frameSlots, hcount]
  exact Nat.zero_max _

/-- The main task of a program that has been loaded. -/
theorem load_frame (hr : m.running = none) (chunk : ChunkId) :
    ∃ t f, (m.load chunk).2.HasTask t ∧ t.id = (m.load chunk).1 ∧ t.frames = [f] ∧
      f.chunk = chunk ∧ f.stackBase = 0 ∧ f.activation = 0 ∧ t.activations = 1 ∧
      f.localCount = min (m.heap.chunk chunk).code.localSlots 65535 ∧
      t.stack = Array.replicate f.localCount .nil := by
  have hget : (m.load chunk).2.vm.scheduler.get? m.vm.scheduler.nextId ≠ none := by
    show (({} : Std.ExtTreeMap TaskId Task).insert m.vm.scheduler.nextId _)[_]? ≠ none
    rw [Std.ExtTreeMap.getElem?_insert_self]
    nofun
  obtain ⟨t, ht⟩ := Option.ne_none_iff_exists'.mp hget
  obtain ⟨handle, f, rfl, -, hcount, hchunk, -, hbase⟩ := load_hasTask hr (.inr ⟨_, ht⟩)
  exact ⟨_, _, .inr ⟨_, ht⟩, rfl, rfl, hchunk, hbase, rfl, rfl,
    hcount.trans (mainTemplate_frameSlots m.heap chunk), Array.empty_append⟩

/-- **A main chunk has room for its locals if the search finds them.** When a program has been
loaded whose main chunk can be read from the beginning to the end, the frame of the main task has
more local slots than any instruction addresses exactly if the search suffices. Then in any run in
which code is tidy, as long as this frame is there, each of the locals that the code addresses is on
the stack, at a slot of its own, which is that of no operand and of no other variable. -/
theorem main_has_room (hr : m.running = none) {chunk : ChunkId}
    (hlinear : (m.heap.chunk chunk).code.Linear) :
    ∃ t f, (m.load chunk).2.HasTask t ∧ t.id = (m.load chunk).1 ∧ t.frames = [f] ∧
      f.chunk = chunk ∧ f.stackBase = 0 ∧ f.activation = 0 ∧
      t.stack = Array.replicate f.localCount .nil ∧
      ((∀ slot ∈ (m.heap.chunk chunk).code.allAddressed, slot < f.localCount) ↔
        (m.heap.chunk chunk).code.SearchSuffices) ∧
      ((m.heap.chunk chunk).code.SearchSuffices →
        ∀ hosts h id config dice hist, (∀ f ∈ hosts, f.Tame) → h.Settled →
        Run (tidy · = true) (create hosts h id config dice) hist m →
        ∀ hist' m', Run (tidy · = true) (m.load chunk).2 hist' m' →
        ∀ t' g, m'.HasTask t' → t'.id = t.id → g ∈ t'.frames → g.activation = 0 →
        ∀ slot ∈ (m.heap.chunk chunk).code.allAddressed, slot < t'.stack.size ∧
          t'.storage.Locates ⟨t'.id, 0, slot⟩ slot) := by
  obtain ⟨t, f, htask, hid, hframes, hchunk, hbase, hfirst, hentered, hcount, hstack⟩ :=
    load_frame hr chunk
  have hroom := hlinear.room_iff
  rw [← hcount] at hroom
  refine ⟨t, f, htask, hid, hframes, hchunk, hbase, hfirst, hstack, hroom, ?_⟩
  intro hsuffices hosts h id config dice hist ht hs hrun hist' m' hrun' t' g htask' hid' hg hact
    slot hslot
  have hload : Move (tidy · = true) m _ (m.load chunk).2 := .load hr chunk
  have hfit₀ := create_fit ht h id config dice
  have hupright₀ := create_upright hosts h id config dice
  have hfit := (hrun.tail hload).fit hfit₀
  have hupright := (hrun.tail hload).upright hfit₀ hupright₀
  have hshares := (((hrun.tail hload).trans hrun').shares hfit₀ hupright₀
    (create_shares hs hosts id config dice)).2
  -- The frame is still the one that the program began with.
  have hmain : (m.load chunk).2.Keeps t.id (Task.Continues f) := by
    refine ⟨hfit.numbered htask, fun t₀ ht₀ hid₀ => ?_⟩
    have hstored := (task?_eq_some hfit.tended).mpr ⟨htask, rfl⟩
    have hstored₀ := (task?_eq_some hfit.tended).mpr ⟨ht₀, hid₀⟩
    obtain rfl : t = t₀ := Option.some.inj (hstored.symm.trans hstored₀)
    refine ⟨by rw [hfirst, hentered]; exact Nat.one_pos, fun g hg _ => ?_⟩
    rw [hframes] at hg
    rw [List.mem_singleton.mp hg]
  have hsame := ((hrun'.continues hfit hupright hmain).holds t' htask' hid').same g hg
    (hact.trans hfirst.symm)
  have hstore : m'.store.tasks t'.id = some t'.storage :=
    congrArg (Option.map Task.storage)
      ((task?_eq_some ((hrun'.fit hfit).tended)).mpr ⟨htask', rfl⟩)
  have hlocates : t'.storage.Locates ⟨t'.id, 0, slot⟩ slot := by
    refine ⟨g.span, List.mem_map_of_mem hg, hact, ?_, ?_⟩
    · show slot < g.localCount
      rw [hsame]
      exact hroom.mpr hsuffices slot hslot
    · show slot = g.stackBase + slot
      rw [hsame, hbase, Nat.zero_add]
  exact ⟨hlocates.lt_size (hshares.neat _ _ hstore), hlocates⟩

/-- The main task of the program that lends a local to another task has it on its stack. -/
theorem lending_has_room : ∃ hist m t, Run (tidy · = true) ((create #[] lending 0 {} {}).load 0).2
    hist m ∧ m.HasTask t ∧ (lending.chunk 0).code.allAddressed = [0, 0, 0] ∧
    0 < t.stack.size ∧ t.storage.Locates ⟨t.id, 0, 0⟩ 0 := by
  have hrun : ((tickFor tidy 6 ((create #[] lending 0 {} {}).load 0).2 []).any fun r =>
      r.2.running.any fun t => decide (t.id = 0) && t.frames.any fun g => g.activation == 0) =
      true := by
    decide +kernel
  obtain ⟨⟨hist, m⟩, hticks, hp⟩ := (Option.any_eq_true _ _).mp hrun
  obtain ⟨t', hr', hp⟩ := (Option.any_eq_true _ _).mp hp
  obtain ⟨hid', hframe⟩ := Bool.and_eq_true_iff.mp hp
  obtain ⟨g, hg, hact⟩ := List.any_eq_true.mp hframe
  have hrun' := run_of_tickFor .refl hticks
  have hslots : (lending.chunk 0).code.allAddressed = [0, 0, 0] := by decide +kernel
  have hlinear : ((create #[] lending 0 {} {}).heap.chunk 0).code.Linear := by decide +kernel
  obtain ⟨t, f, htask, hid, -, -, -, -, -, -, hlater⟩ := main_has_room rfl hlinear
  have hhas := hlater (by decide +kernel) #[] lending 0 {} {} [] (by simp)
    ⟨by simp [lending], by simp [lending]⟩ .refl hist m hrun' t' g (.inl hr')
    ((of_decide_eq_true hid').trans hid.symm) hg (eq_of_beq hact) 0
    (hslots ▸ List.mem_cons_self)
  exact ⟨hist, m, t', hrun', .inl hr', hslots, hhas⟩

/-- A closure that captures a local which nothing names. -/
def unnamed : Heap where
  templates := #[{ name := "f", chunk := 1 }]
  chunks := #[
    { code := assemble [(.pushTrue, []), (.makeClosure, [0, 0, 1, 1, 0]), (.ret, [])]
      constants := #[.function 0] },
    { code := assemble [(.getUpvalue, [0]), (.ret, [])] }]

/-- There is no room for this local. What is captured in its place is an operand. -/
theorem unnamed_has_none : (unnamed.chunk 0).code.Linear ∧
    (unnamed.chunk 0).code.allAddressed = [0] ∧
    (∃ t f, ((create #[] unnamed 0 {} {}).load 0).2.HasTask t ∧ t.frames = [f] ∧
      f.localCount = 0) ∧
    ∃ hist m, Run (fun _ => True) (create #[] unnamed 0 {} {}) hist m ∧
      .captured ⟨0, 0, 0⟩ (.bool true) 0 ∈ hist := by
  refine ⟨by decide +kernel, by decide +kernel, ?_, ?_⟩
  · obtain ⟨t, f, htask, -, hframes, -, -, -, -, hcount, -⟩ :=
      load_frame (m := create #[] unnamed 0 {} {}) rfl 0
    exact ⟨t, f, htask, hframes, hcount.trans (by decide +kernel)⟩
  · have hrun : ((tickFor (fun _ => true) 3 ((create #[] unnamed 0 {} {}).load 0).2 []).any
        fun r => decide (.captured ⟨0, 0, 0⟩ (.bool true) 0 ∈ r.1)) = true := by
      decide +kernel
    obtain ⟨⟨hist, m⟩, hticks, hp⟩ := (Option.any_eq_true _ _).mp hrun
    have hrun := run_of_tickFor (Run.refl.tail (.load rfl 0)) hticks
    exact ⟨hist, m, hrun.mono fun _ _ => trivial, of_decide_eq_true hp⟩

end Machine

end TaskVm
