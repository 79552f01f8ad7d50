import TaskVm.Proofs.Executing

/-!
# Calls

A call takes its arguments and leaves its result, whatever the function does in between: calls of
its own, throws that it catches, waiting while others have their turns. What it leaves behind on
the stacks is gone when its frame is left. For this it is enough that no frame inside the call
reaches into what is not its own.
-/

namespace TaskVm

open Exec Relation

namespace Exec

variable {s s' : Turn} {P args : Array Value}

/-- The surplus arguments are taken off. -/
theorem popMany_surplus {n : Nat} {vs : List Value} (h : popMany n s = .ok vs s')
    (hs : s.task.stack = P ++ args) (hn : n ≤ args.size) : s'.vm = s.vm ∧ s'.heap = s.heap ∧
      s'.task = { s.task with stack := P ++ args.take (args.size - n) } := by
  have hle : n ≤ s.task.stack.size := by
    rw [hs, Array.size_append]
    omega
  have hstack : s.task.stack.take (s.task.stack.size - n) = P ++ args.take (args.size - n) := by
    rw [hs, Array.size_append, show P.size + args.size - n = P.size + (args.size - n) by omega,
      Array.take, Array.extract_append, Array.extract_eq_self_of_le (Nat.le_add_right _ _),
      Nat.add_sub_cancel_left, Nat.zero_sub, Array.take]
  rw [popMany_ok s hle, hstack] at h
  cases h
  exact ⟨rfl, rfl, rfl⟩

/-- The parameters are on the stack in the place of the arguments. -/
theorem bindArguments_ok {t : Template} {argc params : Nat}
    (h : bindArguments t argc s = .ok params s') (hs : s.task.stack = P ++ args)
    (ha : args.size = argc) : params ≤ t.frameSlots ∧ s'.vm = s.vm ∧
      s'.heap.closureTemplate = s.heap.closureTemplate ∧
      ∃ bound, bound.size = params ∧ s'.task = { s.task with stack := P ++ bound } := by
  unfold Template.frameSlots
  rcases bindArguments_eq_ok h with
    ⟨-, harity, rfl, rfl⟩ | ⟨hvariadic, hleast, rfl, extras, s₁, hpop, rfl⟩
  · refine ⟨?_, rfl, rfl, args, ha, ?_⟩
    · rw [harity]
      exact Nat.le_trans (Nat.le_add_right _ _) (Nat.le_max_left _ _)
    · rw [← hs]
  · rw [if_pos hvariadic]
    obtain ⟨hvm, hheap, htask⟩ := popMany_surplus hpop hs (by omega)
    refine ⟨Nat.le_max_left _ _, hvm, by rw [← hheap]; rfl,
      (args.take (args.size - (argc - t.arity.toNat))).push (.array s₁.heap.arrays.size), ?_, ?_⟩
    · rw [Array.size_push, Array.take, Array.size_extract]
      omega
    · show s₁.task.push (.array s₁.heap.arrays.size) = _
      rw [htask, Task.push, Array.push_append]

theorem enterFrame_ok {f : Frame} {locals : Array Value} (h : enterFrame f locals s = .ok ⟨⟩ s') :
    s'.vm = s.vm ∧ s'.task = s.task.enter f locals := by
  obtain ⟨-, rfl⟩ := EStateM.Result.ok.inj h
  exact ⟨rfl, rfl⟩

/-- **What a call enters.** The frame's locals begin where the arguments did, and its iterations
above those there are. There is room for all locals. -/
theorem callClosure_ok {c : ClosureId} {argc : Nat} (h : callClosure c argc s = .ok ⟨⟩ s')
    (hs : s.task.stack = P ++ args) (ha : args.size = argc) :
    s'.task.stack.size ≤ s'.vm.config.stackCapacity ∧ ∃ f locals,
      f.stackBase = P.size ∧ f.iterBase = s.task.iterations.length ∧
      f.activation = s.task.activations ∧ s'.task = { s.task with
        stack := P ++ locals
        frames := f :: s.task.frames
        activations := s.task.activations + 1 } := by
  unfold callClosure at h
  rw [get_bind_apply] at h
  obtain ⟨params, s₁, hbind, h⟩ := bind_eq_ok.mp h
  obtain ⟨hslots, hvm, htemplate, bound, hbound, htask⟩ := bindArguments_ok hbind hs ha
  rw [get_bind_apply] at h
  dsimp only at h
  split at h
  · cases h
  · split at h
    · cases h
    · split at h
      · cases h
      · rename_i hfits
        obtain ⟨⟨⟩, s₂, htell, h⟩ := bind_eq_ok.mp h
        obtain ⟨-, rfl⟩ := EStateM.Result.ok.inj htell
        obtain ⟨hvm', htask'⟩ := enterFrame_ok h
        have hsize : s₁.task.stack.size = P.size + params := by
          rw [htask, Array.size_append, hbound]
        have hbase : s₁.task.stack.size - params = P.size := by rw [hsize, Nat.add_sub_cancel]
        have hcount : (Frame.enter s₁.heap c (s₁.task.stack.size - params)
            s₁.task.iterations.length).localCount = (s.heap.closureTemplate c).frameSlots := by
          rw [Frame.enter, htemplate]
        rw [hcount, hbase] at hfits htask'
        have hentered : s'.task = { s.task with
            stack := P ++ (bound ++
              Array.replicate ((s.heap.closureTemplate c).frameSlots - params) .nil)
            frames := { Frame.enter s₁.heap c P.size s.task.iterations.length with
              activation := s.task.activations } :: s.task.frames
            activations := s.task.activations + 1 } := by
          rw [htask', Task.enter, htask, Array.append_assoc]
        refine ⟨?_, _, _, rfl, rfl, rfl, hentered⟩
        -- The parameters are among the slots that have been found to fit.
        rw [hentered, hvm', Array.size_append, Array.size_append, hbound, Array.size_replicate]
        show _ ≤ s₁.vm.config.stackCapacity
        omega

/-- A call of a closure is its arguments and its frame. -/
theorem call_ok {s₁ : Turn} {argc : Nat} {c : ClosureId} (hargc : readByte s = .ok argc s₁)
    (hs : s₁.task.stack = (P ++ args).push (.closure c)) (ha : args.size = argc)
    (h : execute .call s = .ok .next s') :
    s'.task.stack.size ≤ s'.vm.config.stackCapacity ∧ ∃ f locals,
      f.stackBase = P.size ∧ f.iterBase = s₁.task.iterations.length ∧
      f.activation = s₁.task.activations ∧ s'.task = { s₁.task with
        stack := P ++ locals
        frames := f :: s₁.task.frames
        activations := s₁.task.activations + 1 } := by
  have hcallee : s₁.task.stack.back? = some (.closure c) := by rw [hs, Array.back?_push]
  unfold execute at h
  dsimp only at h
  rw [bind_ok hargc] at h
  obtain ⟨callee, s₂, hpop, h⟩ := bind_eq_ok.mp h
  obtain ⟨⟨⟩, s₃, hcall, h⟩ := bind_eq_ok.mp h
  obtain ⟨-, rfl⟩ := EStateM.Result.ok.inj h
  -- The callee is on top of its arguments.
  rw [pop_ok s₁ hcallee] at hpop
  obtain ⟨rfl, hpopped⟩ := EStateM.Result.ok.inj hpop
  have htask : s₂.task = { s₁.task with stack := P ++ args } := by
    rw [← hpopped, hs, Array.pop_push]
  obtain ⟨hfits, f, locals, hbase, hiter, hact, hentered⟩ :=
    callClosure_ok (s := s₂) hcall (by rw [htask]) ha
  rw [htask] at hiter hact hentered
  exact ⟨hfits, f, locals, hbase, hiter, hact, hentered⟩

/-- **What is left of a frame** is its result. -/
theorem leaveFrame_next {v : Value} {f : Frame} {callers : List Frame}
    (h : leaveFrame v s = .ok .next s') (hf : s.task.frames = f :: callers) :
    s'.touched = s.touched ∧ s'.task.frames = callers ∧
      s'.task.handlers = s.task.handlers.dropWhile (fun hd => callers.length < hd.frameDepth) ∧
      s'.task.iterations = s.task.iterations.drop (s.task.iterations.length - f.iterBase) ∧
      s'.task.stack = (s.task.stack.take f.stackBase).push v := by
  unfold leaveFrame at h
  rw [get_bind_apply, hf] at h
  dsimp only at h
  obtain ⟨⟨⟩, s₁, htell, h⟩ := bind_eq_ok.mp h
  obtain ⟨⟨⟩, s₂, hdrop, h⟩ := bind_eq_ok.mp h
  obtain ⟨-, rfl⟩ := EStateM.Result.ok.inj htell
  obtain ⟨-, rfl⟩ := EStateM.Result.ok.inj hdrop
  split at h
  · cases h
  · obtain ⟨⟨⟩, s₃, hpush, h⟩ := bind_eq_ok.mp h
    obtain ⟨-, rfl⟩ := EStateM.Result.ok.inj hpush
    obtain ⟨-, rfl⟩ := EStateM.Result.ok.inj h
    exact ⟨rfl, rfl, rfl, rfl, rfl⟩

end Exec

/-! ## Entering and leaving -/

namespace Machine

variable {m m' : Machine} {task : Task} {P args : Array Value} {v : Value} {s s' : Turn}

/-- The next tick calls a closure, with the topmost operands as arguments. The turn is `s` when
the instruction has been read and `s'` when the frame has been entered. -/
structure Calls (m : Machine) (task : Task) (P args : Array Value) (s s' : Turn) : Prop where
  read : ∃ s₀, m.Executes task .call s₀ ∧ readByte s₀ = .ok args.size s
  operands : ∃ c, task.stack = (P ++ args).push (.closure c)
  entered : instruction (m.turn task) = .ok .next s'

/-- The call of a closure in the next tick, with given operands, if there is one. -/
def call? (m : Machine) (P args : Array Value) (c : ClosureId) : Option (Task × Turn × Turn) :=
  match m.opcode? with
  | some (task, .call, s₀) =>
    match readByte s₀, instruction (m.turn task) with
    | .ok argc s, .ok .next s' =>
      if argc = args.size ∧ task.stack = (P ++ args).push (.closure c) then some (task, s, s')
      else none
    | _, _ => none
  | _ => none

theorem calls_of_call? {c : ClosureId} (h : m.call? P args c = some (task, s, s')) :
    m.Calls task P args s s' := by
  unfold call? at h
  split at h
  · rename_i task' s₀ hop
    split at h
    · rename_i argc s₁ s₂ hargc hnext
      split at h
      · rename_i hoperands
        cases h
        exact ⟨⟨s₀, executes_of_opcode? hop, hoperands.1 ▸ hargc⟩, ⟨c, hoperands.2⟩, hnext⟩
      · cases h
    · cases h
  · cases h

namespace Calls

theorem running (hc : m.Calls task P args s s') : m.running = some task := by
  obtain ⟨s₀, hs₀, -⟩ := hc.read
  exact hs₀.running

/-- The call is all that happens in the tick. -/
theorem enters (hc : m.Calls task P args s s') :
    (m.turn task).Scans s ∧ Deeds (m.turn task) s ∧ (m.turn task).advance = (none, s') ∧
    ∃ f locals, f.stackBase = P.size ∧ f.iterBase = s.task.iterations.length ∧
      f.activation = s.task.activations ∧ s'.task = { s.task with
        stack := P ++ locals
        frames := f :: s.task.frames
        activations := s.task.activations + 1 } := by
  obtain ⟨s₀, hs₀, hargc⟩ := hc.read
  obtain ⟨c, hstack⟩ := hc.operands
  have hscans : (m.turn task).Scans s := hs₀.scans.trans (scans_readByte hargc)
  have hcall : execute .call s₀ = .ok .next s' := hs₀.instruction_eq.symm.trans hc.entered
  obtain ⟨hfits, hentered⟩ := call_ok hargc (hscans.stack.trans hstack) rfl hcall
  have hadvance := hs₀.advance_next hcall
  rw [if_neg (Nat.not_lt_of_le hfits)] at hadvance
  exact ⟨hscans, deeds_of_changes (hs₀.changes.trans ((leads_readByte s₀).of_ok hargc)), hadvance,
    hentered⟩

end Calls

/-- The next tick leaves the innermost frame for its caller, with a result: it returns from it,
or it is at the end of its code. The turn is `s` when the frame has been left. -/
inductive Leaves (m : Machine) (task : Task) (v : Value) (s : Turn) : Prop where
  | returned {s₀ s₁ : Turn} (h : m.Executes task .ret s₀) (hv : pop s₀ = .ok v s₁)
      (hl : leaveFrame v s₁ = .ok .next s)
  | ended {f : Frame} {fs : List Frame} (hr : m.running = some task) (hready : task.resume = none)
      (hf : task.frames = f :: fs) (hend : (f.code m.heap).size ≤ f.ip) (hv : v = .nil)
      (hl : leaveFrame v (m.turn task) = .ok .next s)

/-- The return to a caller in the next tick, if there is one. -/
def return? (m : Machine) : Option (Task × Value × Turn) :=
  match m.opcode? with
  | some (task, .ret, s₀) =>
    match pop s₀ with
    | .ok v s₁ =>
      match leaveFrame v s₁ with
      | .ok .next s => some (task, v, s)
      | _ => none
    | .error _ _ => none
  | _ => none

theorem leaves_of_return? (h : m.return? = some (task, v, s)) : m.Leaves task v s := by
  unfold return? at h
  split at h
  · rename_i task' s₀ hop
    split at h
    · rename_i v' s₁ hv
      split at h
      · rename_i s₂ hl
        cases h
        exact .returned (executes_of_opcode? hop) hv hl
      · cases h
    · cases h
  · cases h

namespace Leaves

theorem running (h : m.Leaves task v s) : m.running = some task := by
  cases h with
  | returned h => exact h.running
  | ended hr => exact hr

/-- A return takes the result off the stack and leaves the frame. -/
theorem ret_ok {s₀ s₁ : Turn} (hv : pop s₀ = .ok v s₁) (hl : leaveFrame v s₁ = .ok .next s) :
    execute .ret s₀ = .ok .next s := by
  unfold execute
  dsimp only
  rw [bind_ok hv]
  exact hl

theorem advance_ended {f : Frame} {fs : List Frame} (hready : task.resume = none)
    (hf : task.frames = f :: fs) (hend : (f.code m.heap).size ≤ f.ip)
    (hl : leaveFrame .nil (m.turn task) = .ok .next s) : (m.turn task).advance = (none, s) := by
  rw [advance_end hready hf hend, Turn.perform, hl]
  rfl

/-- What has been done when the frame is about to be left. -/
theorem before (h : m.Leaves task v s') {f : Frame} {callers : List Frame}
    (hf : task.frames = f :: callers) : ∃ s, Deeds (m.turn task) s ∧
      leaveFrame v s = .ok .next s' ∧ (∃ ip, s.task.frames = { f with ip } :: callers) ∧
      Deeds s (m.turn task).advance.2 := by
  cases h with
  | @returned s₀ s₁ h hv hl =>
    have hleave : Deeds s₁ s' := deeds_of_changes ((leads_leaveFrame s₁ v).of_ok hl)
    refine ⟨s₁, deeds_of_changes (h.changes.trans ((leads_pop s₀).of_ok hv)), hl, ?_,
      hleave.trans (h.onward (ret_ok hv hl))⟩
    rw [(pop_eq_ok hv).2]
    exact h.scans.frames hf
  | ended hr hready hf' hend hv hl =>
    subst hv
    refine ⟨m.turn task, .refl, hl, ⟨f.ip, hf⟩, ?_⟩
    rw [advance_ended hready hf' hend hl]
    exact deeds_of_changes ((leads_leaveFrame _ _).of_ok hl)

/-- The caller goes on, if there is room for the result. -/
theorem tick_eq (h : m.Leaves task v s) (hfits : s.task.stack.size ≤ s.vm.config.stackCapacity) :
    m.tick.machine = ofTurn s := by
  cases h with
  | returned h hv hl => exact h.tick_next (ret_ok hv hl) hfits
  | ended hr hready hf hend hv hl =>
    subst hv
    rw [tick_goes hr (advance_ended hready hf hend hl)]

end Leaves

/-! ## What is below a call -/

/-- The ground of a call of a task, whose innermost frame has been entered above some operands. -/
def callGround (task : Task) (f : Frame) (callers : List Frame) (P : Array Value)
    (written : Nat → Prop) : Ground where
  task := task.id
  owner := .frame task.activations
  frame := f
  callers
  handlers := task.handlers
  stack := P
  iterations := task.iterations
  written

variable {written : Nat → Prop}

/-- Handlers have been registered by activations that have begun. -/
theorem handler_begun {h : Heap} (hu : task.Upright h) {hd : Handler} (hhd : hd ∈ task.handlers) :
    hd.activation < task.activations := by
  obtain ⟨f, hf, hact, -⟩ := (hu.registered hd hhd).owner
  exact hact ▸ hu.begun f (List.mem_reverse.mp (List.mem_of_getElem? hf))

/-- What is below a call is the callers'. -/
theorem underCall {h : Heap} (hu : task.Upright h) {f : Frame} (hbase : f.stackBase = P.size)
    (hiter : f.iterBase = task.iterations.length) (hact : f.activation = task.activations) :
    (callGround task f task.frames P written).UnderCall task.activations where
  owner := rfl
  frame := hact
  base := Nat.le_of_eq hbase.symm
  iterBase := Nat.le_of_eq hiter.symm
  callers := hu.begun
  handlers hd hhd :=
    ⟨Nat.lt_succ_of_le (hu.registered hd hhd).depth.2, handler_begun hu hhd⟩

/-- Right after the call there is nothing above but the frame and its locals. -/
theorem callGround_stands (f : Frame) (locals : Array Value) :
    (callGround task f task.frames P written).Stands { task with
      stack := P ++ locals
      frames := f :: task.frames
      activations := task.activations + 1 } where
  given := Nat.lt_succ_self _
  bears _ :=
    { frames := ⟨[], f.ip, rfl, by simp⟩
      handlers := ⟨[], rfl, by simp⟩
      stack :=
        { size := by
            rw [Array.size_append]
            exact Nat.le_add_right _ _
          slots := fun slot hslot _ => Array.getElem?_append_left hslot }
      iterations := ⟨[], task.iterations, rfl, rfl⟩ }

theorem Calls.stands (hc : m.Calls task P args s s') (written : Nat → Prop) (hm : m.Fit)
    (hu : m.Upright) : ∃ f,
    f.stackBase = P.size ∧ f.iterBase = task.iterations.length ∧
    (callGround task f s.task.frames P written).UnderCall task.activations ∧
    m.tick.machine.Keeps task.id (callGround task f s.task.frames P written).Stands := by
  obtain ⟨hscans, hdeeds, hadvance, f, locals, hbase, hiter, hact, htask⟩ := hc.enters
  -- The task as it is when the instruction has been read is what the frame is entered from.
  have hs := (upright_of_deeds hdeeds (hu.turn hc.running)).running
  have hground : callGround task f s.task.frames P written =
      callGround s.task f s.task.frames P written := by
    obtain ⟨hf, ip, profiler, instructions⟩ := hscans
    rfl
  have hactivations : task.activations = s.task.activations := hscans.activations.symm
  refine ⟨f, hbase, hiter.trans (congrArg List.length hscans.iterations), ?_, ?_⟩
  · rw [hground, hactivations]
    exact underCall hs hbase hiter hact
  · refine .after hm hc.running ?_
    rw [hadvance, hground, htask]
    exact callGround_stands f locals

/-- The next tick, if it is within a call of a task, reaches only into what is its frames' own.
Whoever has the turn changes only some slots of the task as open captured variables. -/
structure KeepsWithin (id : TaskId) (activation : Nat) (written : Nat → Prop) (m : Machine) :
    Prop where
  own : ∀ t, m.running = some t → t.id = id → (∃ f ∈ t.frames, f.activation = activation) →
    ∀ x ∈ m.touches, x.isOwn = true
  slots : ∀ slot, .slot id slot ∈ m.touches → written slot

theorem keepsWithin_of_own {id : TaskId} {activation : Nat}
    (h : (m.touches.all fun x => x.isOwn && !x.isSlot) = true) :
    m.KeepsWithin id activation fun _ => False where
  own t _ _ _ x hx := (Bool.and_eq_true_iff.mp (List.all_eq_true.mp h x hx)).1
  slots slot hx := by
    have hslot := (Bool.and_eq_true_iff.mp (List.all_eq_true.mp h _ hx)).2
    cases hslot

theorem KeepsWithin.minds {f : Frame} (h : m.KeepsWithin task.id task.activations written)
    (callers : List Frame) (hbase : f.stackBase = P.size) :
    m.Minds (callGround task f callers P written) where
  own t hr hid hon :=
    { spares := h.own t hr hid hon
      slots := h.slots
      locals := fun index _ _ hlt =>
        absurd hlt (Nat.not_lt_of_le (hbase ▸ Nat.le_add_right P.size index)) }
  slots := h.slots

/-- A frame that is left right above the ground of its call leaves what has been there. -/
theorem leave_balanced {f f₀ : Frame} {callers callers₀ : List Frame} {h : Heap}
    (hu : s.task.Upright h) (hf : s.task.frames = f :: callers)
    (hact : f.activation = task.activations)
    (hg : (callGround task f₀ callers₀ P written).UnderCall task.activations)
    (hbase : f₀.stackBase = P.size) (hiter : f₀.iterBase = task.iterations.length)
    (hb : (callGround task f₀ callers₀ P written).Bears s.task)
    (hl : leaveFrame v s = .ok .next s') :
    s'.task.frames = callers₀ ∧ s'.task.handlers = task.handlers ∧
      s'.task.iterations = task.iterations ∧ ∃ P' : Array Value, s'.task.stack = P'.push v ∧
        P'.size = P.size ∧ ∀ slot < P.size, ¬ written slot → P'[slot]? = P[slot]? := by
  obtain ⟨-, hframes, hhandlers, hiterations, hstack⟩ := leaveFrame_next hl hf
  -- The frame is the one that was entered: an activation has one frame.
  obtain ⟨hbase', hiter', hcallers⟩ : f.stackBase = P.size ∧
      f.iterBase = task.iterations.length ∧ callers = callers₀ := by
    rcases (hf ▸ hb.frames).innermost with ⟨-, h₁, h₂, h₃⟩ | ⟨-, -, -, f', hf', hsame⟩
    · exact ⟨h₁.trans hbase, h₂.trans hiter, h₃⟩
    · have hlt := (List.pairwise_cons.mp (hf ▸ hu.apart)).1 f' hf'
      rw [hsame, hact, hg.frame] at hlt
      exact absurd hlt (Nat.lt_irrefl _)
  subst hcallers
  rw [hbase'] at hstack
  rw [hiter'] at hiterations
  refine ⟨hframes, hhandlers.trans ?_, hiterations.trans hb.iterations.resumes, _, hstack,
    hb.stack.cut⟩
  obtain ⟨inner, hinner, hcovers⟩ := hb.handlers
  have hall : ∀ hd ∈ inner, callers.length < hd.frameDepth := fun hd hhd =>
    (hcovers hd hhd).frames
  rw [hinner, List.dropWhile_append_of_pos (by simpa using hall)]
  exact Ground.dropWhile_depth fun hd hhd => Nat.le_of_lt_succ (hg.handlers hd hhd).1

variable {ok : Machine → Prop} {hosts : Array HostFunction} {h : Heap} {id : VmId}
  {config : VmConfig} {dice : Dice} {hist hist' : List Act} {task' : Task} {f : Frame}
  {callers : List Frame} {s'' : Turn}

/-- **Calls are balanced.** Let a task call a closure with some operands below the arguments, and
let the frame be left in the end by a return or at the end of its code, whatever has happened in
between: calls, throws that were caught, waits, turns of other tasks. If no frame inside the call
has reached into what is not its own, then the caller goes on with the handlers and iterations it
had at the call, and with the result on top of the operands it had. Only those operands may have
changed that are variables which closures have captured and changed. -/
theorem Run.calls_balanced (ht : ∀ f ∈ hosts, f.Tame)
    (hr : Run ok (create hosts h id config dice) hist m) (hc : m.Calls task P args s s')
    (hr' : Run (KeepsWithin task.id task.activations written) m.tick.machine hist' m')
    (hm' : m'.KeepsWithin task.id task.activations written) (hid : task'.id = task.id)
    (hf : task'.frames = f :: callers) (hact : f.activation = task.activations)
    (hl : m'.Leaves task' v s'') :
    s''.task.frames = s.task.frames ∧ s''.task.handlers = task.handlers ∧
      s''.task.iterations = task.iterations ∧
      (∃ P' : Array Value, s''.task.stack = P'.push v ∧ P'.size = P.size ∧
        ∀ slot < P.size, ¬ written slot → P'[slot]? = P[slot]?) ∧
      (s''.task.stack.size ≤ s''.vm.config.stackCapacity →
        m'.tick.machine.running = some s''.task) := by
  have hfit := hr.fit (create_fit ht h id config dice)
  have hu := hr.upright (create_fit ht h id config dice) (create_upright hosts h id config dice)
  obtain ⟨f₀, hbase, hiter, hground, hstands⟩ := hc.stands written hfit hu
  obtain ⟨-, -, hadvance, -⟩ := hc.enters
  have hend : m.tick.outcome ≠ some .endless := by
    rw [tick_goes hc.running hadvance]
    simp
  have hfit' := hr'.fit (tick_fit hfit hend)
  have hu' := hr'.upright (tick_fit hfit hend) (tick_upright hfit hu)
  have hkeeps := hr'.stands (fun _ hok => hok.minds _ hbase) (tick_fit hfit hend)
    (tick_upright hfit hu) (.call hground) hstands
  -- The task still stands on the ground when the frame is about to be left.
  obtain ⟨s₁, hdeeds, hleave, ⟨ip, hframes⟩, hrest⟩ := hl.before hf
  have hturn := hu'.turn hl.running
  have hon : (Owner.frame task.activations).On s₁.task :=
    ⟨{ f with ip }, hframes ▸ List.mem_cons_self, hact⟩
  have hstands' := (hkeeps.holds task' (.inl hl.running) hid).deeds (.call hground) hdeeds hturn
    (hfit'.turn hl.running) hid fun hon => ?_
  · obtain ⟨h₁, h₂, h₃, h₄⟩ := leave_balanced (upright_of_deeds hdeeds hturn).running hframes hact
      hground hbase hiter (hstands'.bears hon) hleave
    refine ⟨h₁, h₂, h₃, h₄, fun hfits => ?_⟩
    rw [hl.tick_eq hfits]
    rfl
  · have hminds := (hm'.minds s.task.frames hbase).own task' hl.running hid hon
    rw [touches_eq hl.running] at hminds
    obtain ⟨hacts, htouched⟩ := records_of_deeds hrest
    exact hminds.mono hacts.subset htouched.subset

/-- A function that catches what it throws, and leaves an operand, an iteration and a handler
behind. -/
def untidy : Heap where
  closures := #[{ template := 0 }]
  templates := #[{ name := "untidy", arity := 1, chunk := 1 }]
  chunks := #[
    { code := assemble [(.pushFalse, []), (.pushNil, []), (.constant, [0, 0]), (.call, [1]),
        (.ret, [])]
      constants := #[.closure 0] },
    { code := assemble [(.tryBegin, [0, 2]), (.pushTrue, []), (.throwValue, []),
        (.catchInto, [0, 0]), (.newArray, [0, 0]), (.iterStart, []), (.tryBegin, [0, 0]),
        (.pushFalse, []), (.pushTrue, []), (.ret, [])] }]

/-- Its caller finds what was there, and the result. -/
theorem untidy_balanced : ∃ hist m task s s' hist' m' task' v s'',
    Run (fun _ => True) (create #[] untidy 0 {} {}) hist m ∧
    m.Calls task #[.bool false] #[.nil] s s' ∧
    Run (KeepsWithin task.id task.activations fun _ => False) m.tick.machine hist' m' ∧
    m'.Leaves task' v s'' ∧ task'.stack.size = 4 ∧ task'.iterations.length = 1 ∧
    task'.handlers.length = 1 ∧ s''.task.frames = s.task.frames ∧
    s''.task.handlers = task.handlers ∧ s''.task.iterations = task.iterations ∧
    ∃ P : Array Value, s''.task.stack = P.push v ∧ P.size = 1 ∧ P[0]? = some (.bool false) := by
  have hrun : ((tickFor (fun _ => true) 4 ((create #[] untidy 0 {} {}).load 0).2 []).any fun r =>
      (r.2.call? #[.bool false] #[.nil] 0).any fun x =>
        (tickFor (fun m => m.touches.all fun x => x.isOwn && !x.isSlot) 9 r.2.tick.machine []).any
          fun r' => (r'.2.touches.all fun x => x.isOwn && !x.isSlot) &&
            r'.2.return?.any fun y => y.1.frames.head?.any fun f =>
              decide (y.1.id = x.1.id ∧ f.activation = x.1.activations ∧ y.1.stack.size = 4 ∧
                y.1.iterations.length = 1 ∧ y.1.handlers.length = 1)) = true := by
    decide +kernel
  obtain ⟨⟨hist, m⟩, hticks, hp⟩ := (Option.any_eq_true _ _).mp hrun
  obtain ⟨⟨task, s, s'⟩, hcall, hp⟩ := (Option.any_eq_true _ _).mp hp
  obtain ⟨⟨hist', m'⟩, hticks', hp⟩ := (Option.any_eq_true _ _).mp hp
  obtain ⟨hown, hp⟩ := Bool.and_eq_true_iff.mp hp
  obtain ⟨⟨task', v, s''⟩, hreturn, hp⟩ := (Option.any_eq_true _ _).mp hp
  obtain ⟨f, hhead, hp⟩ := (Option.any_eq_true _ _).mp hp
  obtain ⟨hid, hact, hsize, hiterations, hhandlers⟩ := of_decide_eq_true hp
  obtain ⟨callers, hf⟩ := List.head?_eq_some_iff.mp hhead
  have hc := calls_of_call? hcall
  have hl := leaves_of_return? hreturn
  have hr := (run_of_tickFor (Run.refl.tail (.load rfl 0)) hticks).mono fun _ _ => trivial
  have hr' : Run (KeepsWithin task.id task.activations fun _ => False) m.tick.machine hist' m' :=
    (run_of_tickFor .refl hticks').mono fun _ => keepsWithin_of_own
  obtain ⟨h₁, h₂, h₃, ⟨P, hstack, hP, hslots⟩, -⟩ :=
    Run.calls_balanced (by simp) hr hc hr' (keepsWithin_of_own hown) hid hf hact hl
  exact ⟨hist, m, task, s, s', hist', m', task', v, s'', hr, hc, hr', hl, hsize, hiterations,
    hhandlers, h₁, h₂, h₃, P, hstack, hP, hslots 0 Nat.zero_lt_one not_false⟩

end Machine

end TaskVm
