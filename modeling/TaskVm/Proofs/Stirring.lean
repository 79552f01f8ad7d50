import TaskVm.Proofs.Calm

/-!
# What instructions do to calls

An instruction enters a frame, leaves one, registers a handler or starts a task, and if it does
none of these it is calm. With each of them goes what debuggers are told of it, and what has been
checked before.
-/

namespace TaskVm

open Exec Relation

/-- Two heaps with the same functions. -/
structure Heap.SameFunctions (h h' : Heap) : Prop where
  closures : h'.closures = h.closures
  templates : h'.templates = h.templates

namespace Turn

/-- A frame of a closure has been entered, with its operands from a place on, and there was room for
it. -/
structure Enters (c : ClosureId) (base : Nat) (s s' : Turn) : Prop where
  events : s'.events = s.events ++
    [.called s.task.id (s.heap.closureTemplate c).name (s.task.frames.length + 1)]
  id : s'.task.id = s.task.id
  entries : s'.task.entries = (c, base) :: s.task.entries
  handlers : s'.task.handlers.Sublist s.task.handlers
  config : s'.vm.config = s.vm.config
  nextId : s'.vm.scheduler.nextId = s.vm.scheduler.nextId
  tasks : s'.vm.scheduler.tasks = s.vm.scheduler.tasks
  heap : s.heap.SameFunctions s'.heap
  frames : s.task.frames.length < s.vm.config.maxFrames
  room : s'.task.stack.size ≤ s.vm.config.stackCapacity

/-- The innermost frame has been left. -/
structure Leaves (s s' : Turn) : Prop where
  left : ∃ f callers v, s.task.frames = f :: callers ∧
    s'.task.entries = callers.map Frame.entry ∧
    s'.events = s.events ++ [.returned s.task.id (f.functionName s.heap) v]
  id : s'.task.id = s.task.id
  handlers : s'.task.handlers.Sublist s.task.handlers
  config : s'.vm.config = s.vm.config
  nextId : s'.vm.scheduler.nextId = s.vm.scheduler.nextId

/-- A handler has been registered, for the operands there are. -/
structure Protects (s s' : Turn) : Prop where
  events : s'.events = s.events
  id : s'.task.id = s.task.id
  entries : s'.task.entries = s.task.entries
  handlers : ∃ hd, s'.task.handlers = hd :: s.task.handlers ∧
    hd.stackDepth = s.task.stack.size
  config : s'.vm.config = s.vm.config
  nextId : s'.vm.scheduler.nextId = s.vm.scheduler.nextId

/-- A number has been given out, and no task has begun. -/
structure Reserves (s s' : Turn) : Prop where
  events : s'.events = s.events
  id : s'.task.id = s.task.id
  entries : s'.task.entries = s.task.entries
  handlers : s'.task.handlers.Sublist s.task.handlers
  config : s'.vm.config = s.vm.config
  nextId : s'.vm.scheduler.nextId = s.vm.scheduler.nextId + 1
  tasks : s'.vm.scheduler.tasks = s.vm.scheduler.tasks

/-- A task that has begun with a frame of a closure, and there was room for it. -/
structure Begins (c : ClosureId) (id : TaskId) (config : VmConfig) (t : Task) : Prop where
  id : t.id = id
  entries : ∃ base, t.entries = [(c, base)]
  handlers : t.handlers = []
  frames : 0 < config.maxFrames
  room : t.stack.size ≤ config.stackCapacity

/-- A task has begun on a closure. -/
structure Spawns (c : ClosureId) (s s' : Turn) : Prop where
  events : s'.events = s.events ++
    [.called s.vm.scheduler.nextId (s.heap.closureTemplate c).name 1]
  id : s'.task.id = s.task.id
  entries : s'.task.entries = s.task.entries
  handlers : s'.task.handlers.Sublist s.task.handlers
  config : s'.vm.config = s.vm.config
  nextId : s'.vm.scheduler.nextId = s.vm.scheduler.nextId + 1
  heap : s.heap.SameFunctions s'.heap
  tasks : ∃ child, Begins c s.vm.scheduler.nextId s.vm.config child ∧
    ∀ k t, s'.vm.scheduler.get? k = some t → t = child ∨ s.vm.scheduler.get? k = some t

/-- What an instruction does to calls. A closure that is called or spawned is the topmost
operand, and has no place among the operands of its frame. Only some opcodes enter frames and
register handlers. -/
inductive Stirs (doing : Opcode → Prop) (s s' : Turn) : Prop where
  | calm (h : s.Calm s')
  | enters {c : ClosureId} {base : Nat} (hd : doing .call)
      (hc : s.task.stack.back? = some (.closure c)) (hb : base < s.task.stack.size)
      (h : s.Enters c base s')
  | leaves (h : s.Leaves s')
  | protects (hd : doing .tryBegin) (h : s.Protects s')
  | reserves (h : s.Reserves s')
  | spawns {c : ClosureId} (hc : s.task.stack.back? = some (.closure c)) (h : s.Spawns c s')

/-- Operands have been read or taken, which is before anything else is done. -/
structure Prepares (s s' : Turn) : Prop extends Turn.Calm s s' where
  heap : s'.heap = s.heap
  tasks : s'.vm.scheduler.tasks = s.vm.scheduler.tasks

variable {doing : Opcode → Prop} {s s₀ s' : Turn} {c : ClosureId} {base : Nat}

namespace Prepares

theorem trans (h : s.Prepares s₀) (h' : s₀.Prepares s') : s.Prepares s' :=
  ⟨h.toCalm.trans h'.toCalm, h'.heap.trans h.heap, h'.tasks.trans h.tasks⟩

theorem of_scans (h : s.Scans s') : s.Prepares s' := by
  refine ⟨h.calm, h.heap, ?_⟩
  cases h
  rfl

theorem enters (h : s.Prepares s₀) (h' : s₀.Enters c base s') : s.Enters c base s' where
  events := by rw [h'.events, h.events, h.id, h.heap, h.depth]
  id := h'.id.trans h.id
  entries := by rw [h'.entries, h.entries]
  handlers := h'.handlers.trans h.handlers
  config := h'.config.trans h.config
  nextId := h'.nextId.trans h.nextId
  tasks := h'.tasks.trans h.tasks
  heap := ⟨h'.heap.closures.trans (by rw [h.heap]), h'.heap.templates.trans (by rw [h.heap])⟩
  frames := by rw [← h.depth, ← h.config]; exact h'.frames
  room := by rw [← h.config]; exact h'.room

theorem leaves (h : s.Prepares s₀) (h' : s₀.Leaves s') : s.Leaves s' where
  left := by
    obtain ⟨f, callers, v, hf, hentries, hevents⟩ := h'.left
    have hsame := h.entries
    unfold Task.entries at hsame
    rw [hf] at hsame
    cases hs : s.task.frames with
    | nil =>
      rw [hs] at hsame
      cases hsame
    | cons g fs =>
      rw [hs] at hsame
      obtain ⟨hentry, hrest⟩ := List.cons.inj hsame
      have hclosure : f.closure = g.closure := congrArg Prod.fst hentry
      refine ⟨g, fs, v, rfl, hentries.trans hrest, ?_⟩
      rw [hevents, h.events, h.id, h.heap, Frame.functionName, hclosure, Frame.functionName]
  id := h'.id.trans h.id
  handlers := h'.handlers.trans h.handlers
  config := h'.config.trans h.config
  nextId := h'.nextId.trans h.nextId

theorem reserves (h : s.Prepares s₀) (h' : s₀.Reserves s') : s.Reserves s' where
  events := h'.events.trans h.events
  id := h'.id.trans h.id
  entries := h'.entries.trans h.entries
  handlers := h'.handlers.trans h.handlers
  config := h'.config.trans h.config
  nextId := by rw [h'.nextId, h.nextId]
  tasks := h'.tasks.trans h.tasks

theorem spawns (h : s.Prepares s₀) (h' : s₀.Spawns c s') : s.Spawns c s' where
  events := by rw [h'.events, h.events, h.nextId, h.heap]
  id := h'.id.trans h.id
  entries := h'.entries.trans h.entries
  handlers := h'.handlers.trans h.handlers
  config := h'.config.trans h.config
  nextId := by rw [h'.nextId, h.nextId]
  heap := ⟨h'.heap.closures.trans (by rw [h.heap]), h'.heap.templates.trans (by rw [h.heap])⟩
  tasks := by
    obtain ⟨child, hchild, htasks⟩ := h'.tasks
    rw [h.nextId, h.config] at hchild
    refine ⟨child, hchild, fun k t ht => (htasks k t ht).imp id fun hold => ?_⟩
    rwa [Scheduler.get?, h.tasks] at hold

end Prepares

theorem Stirs.mono {doing' : Opcode → Prop} (hd : ∀ op, doing op → doing' op)
    (h : s.Stirs doing s') : s.Stirs doing' s' := by
  cases h with
  | calm h => exact .calm h
  | enters hcall hc hb h => exact .enters (hd _ hcall) hc hb h
  | leaves h => exact .leaves h
  | protects htry h => exact .protects (hd _ htry) h
  | reserves h => exact .reserves h
  | spawns hc h => exact .spawns hc h

theorem Stirs.id (h : s.Stirs doing s') : s'.task.id = s.task.id := by
  cases h with
  | calm h | reserves h | leaves h => exact h.id
  | enters _ _ _ h | spawns _ h | protects _ h => exact h.id

/-- What comes after code has been read. -/
theorem Stirs.after_scans (h : s.Scans s₀) (h' : s₀.Stirs doing s') : s.Stirs doing s' := by
  have hp := Prepares.of_scans h
  cases h' with
  | calm h' => exact .calm (hp.toCalm.trans h')
  | enters hcall hc hb h' => exact .enters hcall (h.stack ▸ hc) (h.stack ▸ hb) (hp.enters h')
  | leaves h' => exact .leaves (hp.leaves h')
  | protects htry h' =>
    obtain ⟨hd, hhandlers, hdepth⟩ := h'.handlers
    refine .protects htry ⟨h'.events.trans hp.events, h'.id.trans hp.id,
      h'.entries.trans hp.entries, ⟨hd, ?_, ?_⟩, h'.config.trans hp.config,
      h'.nextId.trans hp.nextId⟩
    · rw [hhandlers, h.handlers]
    · rw [hdepth, h.stack]
  | reserves h' => exact .reserves (hp.reserves h')
  | spawns hc h' => exact .spawns (h.stack ▸ hc) (hp.spawns h')

end Turn

namespace Exec

variable {doing : Opcode → Prop} {s s' : Turn} {c : ClosureId}

/-! ## Calls -/

/-- What is popped is an operand. -/
theorem pop_prepares {v : Value} (h : pop s = .ok v s') :
    s.task.stack.back? = some v ∧ s.Prepares s' ∧
      s'.task.stack.size + 1 = s.task.stack.size := by
  obtain ⟨hv, rfl⟩ := pop_eq_ok h
  have hpos : 0 < s.task.stack.size := Array.size_pos_iff.mpr fun hempty => by
    rw [hempty] at hv
    cases hv
  refine ⟨hv, ⟨.of_eq rfl rfl rfl rfl rfl, rfl, rfl⟩, ?_⟩
  show s.task.stack.pop.size + 1 = _
  rw [Array.size_pop, Nat.sub_add_cancel hpos]

theorem popMany_prepares {n : Nat} {vs : List Value} (h : popMany n s = .ok vs s') :
    s.Prepares s' ∧ s'.task.stack.size ≤ s.task.stack.size := by
  by_cases hn : n ≤ s.task.stack.size
  · rw [popMany_ok s hn] at h
    obtain ⟨-, rfl⟩ := EStateM.Result.ok.inj h
    refine ⟨⟨.of_eq rfl rfl rfl rfl rfl, rfl, rfl⟩, ?_⟩
    show (s.task.stack.take _).size ≤ _
    rw [Array.take_eq_extract, Array.size_extract]
    omega
  · rw [popMany, bind_error (onTask_error s (by rw [Task.popMany, if_neg hn]))] at h
    cases h

/-- What is bound to the parameters has its place among the locals, and there are no other operands
than before. -/
theorem bindArguments_fits {t : Template} {argc params : Nat}
    (h : bindArguments t argc s = .ok params s') :
    params ≤ t.frameSlots ∧ s'.task.stack.size ≤ s.task.stack.size + params ∧
      s.heap.SameFunctions s'.heap := by
  unfold Template.frameSlots
  rcases bindArguments_eq_ok h with
    ⟨-, harity, rfl, rfl⟩ | ⟨hvariadic, -, rfl, extras, s₁, hpop, rfl⟩
  · refine ⟨?_, Nat.le_add_right _ _, rfl, rfl⟩
    rw [harity]
    exact Nat.le_trans (Nat.le_add_right _ _) (Nat.le_max_left _ _)
  · rw [if_pos hvariadic]
    obtain ⟨hp, hfew⟩ := popMany_prepares hpop
    refine ⟨Nat.le_max_left _ _, ?_, ⟨?_, ?_⟩⟩
    · show (s₁.task.stack.push _).size ≤ _
      rw [Array.size_push]
      omega
    · show s₁.heap.closures = _
      rw [hp.heap]
    · show s₁.heap.templates = _
      rw [hp.heap]

/-- A call of a closure fails without having been noticed, or enters a frame. -/
theorem callClosure_enters (c : ClosureId) (argc : Nat) (s : Turn) :
    (∃ e s', callClosure c argc s = .error e s' ∧ s.Calm s' ∧ s'.vm = s.vm) ∨
    ∃ base s', callClosure c argc s = .ok ⟨⟩ s' ∧ base ≤ s.task.stack.size ∧
      s.Enters c base s' := by
  -- The call is refused by the arguments, by the frame limit, by too few operands or by the stack's
  -- capacity, and in each case before anything but operands has changed.
  cases hb : bindArguments (s.heap.closureTemplate c) argc s with
  | error e s' =>
    refine .inl ⟨e, s', ?_, ?_, ?_⟩
    · rw [callClosure, get_bind_apply]
      exact bind_error hb
    · have hcalm := calm_of_stays (stays_bindArguments s (s.heap.closureTemplate c) argc)
      rwa [Leads, endState_error hb] at hcalm
    · have hin := inward_bindArguments s (s.heap.closureTemplate c) argc
      rw [Leads, endState_error hb] at hin
      exact hin.vm
  | ok params s₁ =>
    have hcalm := ((stays_bindArguments s (s.heap.closureTemplate c) argc).of_ok hb).calm
    have hvm := ((inward_bindArguments s (s.heap.closureTemplate c) argc).of_ok hb).vm
    obtain ⟨hparams, hsize, hfunctions⟩ := bindArguments_fits hb
    have htemplate : s₁.heap.closureTemplate c = s.heap.closureTemplate c := by
      unfold Heap.closureTemplate Heap.closure Heap.template
      rw [hfunctions.closures, hfunctions.templates]
    rw [callClosure, get_bind_apply, bind_ok hb, get_bind_apply]
    dsimp only
    by_cases hframes : s₁.vm.config.maxFrames ≤ s₁.task.frames.length
    · rw [if_pos hframes]
      exact .inl ⟨_, s₁, rfl, hcalm, hvm⟩
    · rw [if_neg hframes]
      by_cases hargs : s₁.task.stack.size < params
      · rw [if_pos hargs]
        exact .inl ⟨_, s₁, rfl, hcalm, hvm⟩
      · rw [if_neg hargs]
        split
        · exact .inl ⟨_, s₁, rfl, hcalm, hvm⟩
        · rename_i hroom
          refine .inr ⟨s₁.task.stack.size - params, _, rfl, ?_, ?_, hcalm.id, ?_, hcalm.handlers,
            hcalm.config, hcalm.nextId, congrArg (·.scheduler.tasks) hvm,
            ⟨hfunctions.closures, hfunctions.templates⟩, ?_, ?_⟩
          · exact Nat.sub_le_of_le_add hsize
          · show s₁.events ++ [.called s₁.task.id _ (s₁.task.frames.length + 1)] = _
            rw [hcalm.events, hcalm.id, hcalm.depth]
          · show (c, s₁.task.stack.size - params) :: s₁.task.entries = _
            rw [hcalm.entries]
          · rw [← hcalm.depth, ← hcalm.config]
            exact Nat.lt_of_not_le hframes
          · rw [← hcalm.config]
            show (s₁.task.stack ++ Array.replicate _ Value.nil).size ≤ _
            rw [Array.size_append, Array.size_replicate]
            have hcount : (Frame.enter s₁.heap c (s₁.task.stack.size - params)
                s₁.task.iterations.length).localCount = (s.heap.closureTemplate c).frameSlots := by
              rw [Frame.enter, htemplate]
            rw [hcount] at hroom ⊢
            omega

/-- What is done once an operand is there. -/
theorem stirs_bind {α β : Type} {x : Exec α} {f : α → Exec β} (hx : Leads Turn.Calm x s)
    (hf : ∀ a s', x s = .ok a s' → s.Stirs doing (endState (f a) s')) :
    Leads (Turn.Stirs doing) (x >>= f) s := by
  unfold Leads
  cases h : x s with
  | ok a s' =>
    rw [endState_bind_ok h]
    exact hf a s' h
  | error e s' =>
    rw [Leads, endState_error h] at hx
    rw [endState_error (bind_error h)]
    exact .calm hx

theorem stirs_call (s : Turn) : Leads (Turn.Stirs (.call = ·)) (execute .call) s := by
  refine stirs_bind (calm_of_takes (takes_readByte s)) fun argc s₁ h₁ => ?_
  refine Turn.Stirs.after_scans (scans_readByte h₁) ?_
  refine stirs_bind (calm_of_stays (stays_pop s₁)) fun callee s₂ h₂ => ?_
  obtain ⟨hcallee, hpop, hsize⟩ := pop_prepares h₂
  cases callee with
  | closure c =>
    have hcalls : callValue (.closure c) argc s₂ = callClosure c argc s₂ := rfl
    rcases callClosure_enters c argc s₂ with
        ⟨e, s₃, hcall, hcalm, -⟩ | ⟨base, s₃, hcall, hbase, henters⟩
    · rw [endState_error (bind_error (hcalls.trans hcall))]
      exact .calm (hpop.toCalm.trans hcalm)
    · rw [endState_bind_ok (hcalls.trans hcall)]
      exact .enters rfl hcallee (hsize ▸ Nat.lt_succ_of_le hbase) (hpop.enters henters)
  | _ =>
    refine .calm (hpop.toCalm.trans ?_)
    exact leads_bind (calm_of_stays (stays_callValue s₂ (by nofun) argc)) fun _ s _ =>
      leads_pure _ s

/-- A frame is left, if there is one. -/
theorem leaveFrame_leaves (v : Value) (s : Turn) :
    s.Calm (endState (leaveFrame v) s) ∨ s.Leaves (endState (leaveFrame v) s) := by
  unfold leaveFrame
  rw [endState_bind_ok (get_apply s)]
  cases hf : s.task.frames with
  | nil => exact .inl (.refl s)
  | cons f callers =>
    have hsub := List.dropWhile_sublist (l := s.task.handlers)
      fun hd => callers.length < hd.frameDepth
    cases callers with
    | nil => exact .inr ⟨⟨f, [], v, hf, rfl, rfl⟩, rfl, hsub, rfl, rfl⟩
    | cons g fs => exact .inr ⟨⟨f, g :: fs, v, hf, rfl, rfl⟩, rfl, hsub, rfl, rfl⟩

theorem stirs_leaveFrame (v : Value) (s : Turn) : Leads (Turn.Stirs doing) (leaveFrame v) s :=
  (leaveFrame_leaves v s).elim .calm .leaves

theorem stirs_ret (s : Turn) : Leads (Turn.Stirs doing) (execute .ret) s := by
  refine stirs_bind (calm_of_stays (stays_pop s)) fun v s₁ h₁ => ?_
  obtain ⟨-, hpop, -⟩ := pop_prepares h₁
  exact (leaveFrame_leaves v s₁).elim (fun h => .calm (hpop.toCalm.trans h)) fun h =>
    .leaves (hpop.leaves h)

theorem stirs_tryBegin (s : Turn) : Leads (Turn.Stirs (.tryBegin = ·)) (execute .tryBegin) s := by
  show s.Stirs (.tryBegin = ·) (endState (do tryBegin; pure Flow.next) s)
  suffices h : Leads (Turn.Stirs (.tryBegin = ·)) tryBegin s by
    unfold Leads at h
    cases hx : tryBegin s with
    | ok a s₁ =>
      rw [endState_bind_ok hx]
      rwa [endState_ok hx] at h
    | error e s₁ =>
      rw [endState_error (bind_error hx)]
      rwa [endState_error hx] at h
  refine stirs_bind (calm_of_takes (takes_readOffset s)) fun offset s₁ h₁ => ?_
  refine Turn.Stirs.after_scans (scans_readOffset h₁) ?_
  rw [endState_bind_ok (get_apply s₁)]
  refine stirs_bind (calm_of_stays (stays_frame s₁)) fun f s₂ h₂ => ?_
  obtain ⟨rfl, -⟩ := frame_eq_ok s₁ h₂
  split
  · exact .calm (calm_of_stays (stays_invalid s₂ _))
  · exact .protects rfl ⟨rfl, rfl, rfl, ⟨_, rfl, rfl⟩, rfl, rfl⟩

/-! ## New tasks -/

/-- A task begins on a closure, or a number has been given out in vain. -/
theorem spawn_stirs (callee : Value) (args : List Value) (s : Turn) :
    s.Calm (endState (spawn callee args) s) ∨ s.Reserves (endState (spawn callee args) s) ∨
    ∃ c v s', callee = .closure c ∧ spawn callee args s = .ok v s' ∧ s.Spawns c s' := by
  unfold spawn
  split
  · rename_i c
    let s₀ : Turn := { s with
      heap := (s.heap.newHandle { id := s.vm.scheduler.nextId,
                                  name := (s.heap.closureTemplate c).name }).2
      vm := { s.vm with scheduler := s.vm.scheduler.takeId.2 } }
    let t : Task := { id := s.vm.scheduler.nextId, handle := s.heap.handles.size,
                      stack := args.toArray }
    have hspawn : spawn (.closure c) args s = (do
        let child ← withTask t (callClosure c args.length)
        start child
        pure (Value.task child.handle)) s₀ := rfl
    right
    -- The call runs on the child, so what it does to the task is out of sight for the parent.
    rcases callClosure_enters c args.length { s₀ with task := t } with
      ⟨e, s₁, hcall, hcalm, hvm⟩ | ⟨base, s₁, hcall, -, henters⟩
    · have hw : withTask t (callClosure c args.length) s₀ =
          .error e { s₁ with task := s.task, tidy := s.tidy, touched := s.touched } := by
        rw [withTask, hcall]
      left
      show s.Reserves (endState (spawn (.closure c) args) s)
      rw [endState_error (hspawn.trans (bind_error hw))]
      exact ⟨hcalm.events, rfl, rfl, List.Sublist.refl _, hcalm.config, hcalm.nextId,
        congrArg (·.scheduler.tasks) hvm⟩
    · have hw : withTask t (callClosure c args.length) s₀ =
          .ok s₁.task { s₁ with task := s.task, tidy := s.tidy, touched := s.touched } := by
        rw [withTask, hcall]
      right
      refine ⟨c, _, _, rfl, hspawn.trans ((bind_ok hw).trans rfl), ?_⟩
      refine ⟨henters.events, rfl, rfl, List.Sublist.refl _, henters.config, henters.nextId,
        ⟨henters.heap.closures, henters.heap.templates⟩, s₁.task, ?_, fun k u hu => ?_⟩
      · exact ⟨henters.id, ⟨base, henters.entries⟩, List.sublist_nil.mp henters.handlers,
          henters.frames, henters.room⟩
      · have hput := (s₁.vm.scheduler.get?_put_eq s₁.task k).symm.trans hu
        split at hput
        · exact .inl (Option.some.inj hput).symm
        · exact .inr (by rwa [Scheduler.get?, henters.tasks] at hput)
  · exact .inl (calm_of_stays (stays_raise s _))

theorem stirs_spawn (s : Turn) : Leads (Turn.Stirs doing) (execute .spawn) s := by
  refine stirs_bind (calm_of_takes (takes_readByte s)) fun argc s₁ h₁ => ?_
  refine Turn.Stirs.after_scans (scans_readByte h₁) ?_
  refine stirs_bind (calm_of_stays (stays_pop s₁)) fun callee s₂ h₂ => ?_
  obtain ⟨hcallee, hpop, -⟩ := pop_prepares h₂
  cases h₃ : popMany argc s₂ with
  | error e s₃ =>
    have hcalm := calm_of_stays (stays_popMany s₂ argc)
    rw [Leads, endState_error h₃] at hcalm
    rw [endState_error (bind_error h₃)]
    exact .calm (hpop.toCalm.trans hcalm)
  | ok args s₃ =>
    have hops := hpop.trans (popMany_prepares h₃).1
    rw [endState_bind_ok h₃]
    have hstirs := spawn_stirs callee args s₃
    cases h₄ : spawn callee args s₃ with
    | error e s₄ =>
      rw [endState_error h₄] at hstirs
      rw [endState_error (bind_error h₄)]
      rcases hstirs with h | h | ⟨c, v, s₅, -, hok, -⟩
      · exact .calm (hops.toCalm.trans h)
      · exact .reserves (hops.reserves h)
      · cases h₄.symm.trans hok
    | ok v s₄ =>
      rw [endState_ok h₄] at hstirs
      rw [endState_bind_ok h₄]
      -- The handle that is pushed is of no concern.
      rcases hstirs with h | h | ⟨c, w, s₅, rfl, hok, h⟩
      · exact .calm (hops.toCalm.trans (h.trans (Turn.Stays.calm (stays_push s₄ v))))
      · exact .reserves (hops.reserves ⟨h.events, h.id, h.entries, h.handlers, h.config,
          h.nextId, h.tasks⟩)
      · obtain ⟨-, rfl⟩ := EStateM.Result.ok.inj (h₄.symm.trans hok)
        exact .spawns hcallee (hops.spawns ⟨h.events, h.id, h.entries, h.handlers, h.config,
          h.nextId, ⟨h.heap.closures, h.heap.templates⟩, h.tasks⟩)

/-! ## Instructions -/

/-- **What an instruction does to calls.** -/
theorem stirs_execute (op : Opcode) (s : Turn) :
    Leads (Turn.Stirs (op = ·)) (execute op) s := by
  cases hop : isCallOp op with
  | false => exact .calm (calm_execute s hop)
  | true =>
    cases op
    case call => exact stirs_call s
    case ret => exact stirs_ret s
    case spawn => exact stirs_spawn s
    case tryBegin => exact stirs_tryBegin s
    all_goals nomatch hop

/-- **The next instruction**, with the check that follows it. -/
theorem stirs_step (s : Turn) :
    Leads (Turn.Stirs fun op => ∃ s₁, fetch s = .ok op s₁) step s := by
  have hinstruction :
      Leads (Turn.Stirs fun op => ∃ s₁, fetch s = .ok op s₁) instruction s := by
    refine stirs_bind (calm_fetch s) fun op s₁ h₁ => ?_
    cases h₂ : countInstruction op s₁ with
    | error e s₂ =>
      have hcalm := calm_countInstruction s₁ op
      rw [Leads, endState_error h₂] at hcalm
      rw [endState_error (bind_error h₂)]
      exact .calm ((scans_fetch h₁).calm.trans hcalm)
    | ok u s₂ =>
      rw [endState_bind_ok h₂]
      refine Turn.Stirs.after_scans (scans_fetched h₁ h₂) ?_
      refine Turn.Stirs.mono (fun op' hop => ?_) (stirs_execute op s₂)
      exact ⟨s₁, hop ▸ h₁⟩
  unfold Leads at hinstruction ⊢
  cases hi : instruction s with
  | error e s₁ =>
    rw [endState_error hi] at hinstruction
    rwa [step, endState_error (bind_error hi)]
  | ok flow s₁ =>
    rw [endState_ok hi] at hinstruction
    rw [step, endState_bind_ok hi, endState_bind_ok (get_apply s₁)]
    split
    · exact hinstruction
    · exact hinstruction

end Exec

/-! ## Other tasks -/

theorem Task.Rests.entries {written : Nat → Prop} {t t' : Task} (h : t.Rests written t') :
    t'.entries = t.entries := by
  rw [Task.entries, h.frames, Task.entries]

namespace Turn

variable {doing : Opcode → Prop} {s s' : Turn}

/-- Tasks that are held have been there before, and have rested. -/
def Others (s s' : Turn) : Prop := ∀ k t', s'.vm.scheduler.get? k = some t' →
  ∃ k t written, s.vm.scheduler.get? k = some t ∧ t.Rests written t'

theorem Others.of_eq (h : s'.vm.scheduler.tasks = s.vm.scheduler.tasks) : s.Others s' :=
  fun k t' ht => ⟨k, t', fun _ => False, by rwa [Scheduler.get?, h] at ht, .refl _ _⟩

/-- A turn that gives out no number begins no task. -/
theorem others_of_deeds (hd : Deeds s s') (ht : s.crew.Tended)
    (hnext : s'.vm.scheduler.nextId = s.vm.scheduler.nextId) : s.Others s' := by
  intro k t' hk
  rcases (attends_of_deeds hd ht).held k t' hk with hnew | ⟨k, t, hget, hrests⟩
  · have hheld : (Machine.ofTurn s').HasTask t' := .inr ⟨k, hk⟩
    exact absurd (hnext ▸ hheld.numbered (tended_of_deeds hd ht)) (Nat.not_lt_of_le hnew)
  · exact ⟨k, t, _, hget, hrests⟩

/-- A task that is held has rested, or begins. -/
theorem Stirs.held (h : s.Stirs doing s') (hd : Deeds s s') (ht : s.crew.Tended) {k : TaskId}
    {t' : Task} (hk : s'.vm.scheduler.get? k = some t') :
    (∃ k t written, s.vm.scheduler.get? k = some t ∧ t.Rests written t') ∨
      ∃ c id, Begins c id s.vm.config t' := by
  cases h with
  | calm h => exact .inl (others_of_deeds hd ht h.nextId k t' hk)
  | leaves h => exact .inl (others_of_deeds hd ht h.nextId k t' hk)
  | protects _ h => exact .inl (others_of_deeds hd ht h.nextId k t' hk)
  | reserves h => exact .inl (Others.of_eq h.tasks k t' hk)
  | enters _ _ _ h => exact .inl (Others.of_eq h.tasks k t' hk)
  | spawns _ h =>
    obtain ⟨child, hchild, htasks⟩ := h.tasks
    rcases htasks k t' hk with rfl | hold
    · exact .inr ⟨_, _, hchild⟩
    · exact .inl ⟨k, t', fun _ => False, hold, .refl _ _⟩

end Turn

/-! ## Throws -/

namespace Turn

/-- Frames have been left by a throw. -/
structure Unwinds (s s' : Turn) : Prop where
  left : ∃ n v, s'.events = s.events ++ s.returnedByThrow v (s.task.frames.take n) ∧
    s'.task.entries = s.task.entries.drop n
  id : s'.task.id = s.task.id
  vm : s'.vm = s.vm
  heap : s.heap.SameFunctions s'.heap

/-- **What a throw does to calls**, caught or not. -/
theorem unwind_unwinds (s : Turn) (v : Value) : s.Unwinds (s.unwind v).2 := by
  unfold unwind
  cases hh : s.task.handlers with
  | nil => exact ⟨⟨0, v, (List.append_nil _).symm, rfl⟩, rfl, rfl, ⟨rfl, rfl⟩⟩
  | cons hd rest =>
    have hdrop : ∀ n, (s.task.frames.drop n).map Frame.entry = s.task.entries.drop n :=
      fun n => List.map_drop
    dsimp only
    rw [OpenUpvalues.closeFrom_frame]
    split
    · rename_i f callers hf
      refine ⟨⟨_, v, rfl, ?_⟩, rfl, rfl, ⟨rfl, rfl⟩⟩
      rw [← hdrop]
      exact (congrArg (List.map Frame.entry) hf).symm
    · exact ⟨⟨_, v, rfl, hdrop _⟩, rfl, rfl, ⟨rfl, rfl⟩⟩

/-! ## What the running task does -/

variable {s s₀ : Turn} {x : Exec Flow}

/-- What a wait has come to is picked up without any calls. -/
theorem calm_resumeWith (r : Resume) (s : Turn) : Leads Calm (resumeWith r) s := by
  cases r with
  | value v =>
    exact calm_of_stays (leads_bind (stays_push _ v) fun _ s _ => leads_pure _ s)
  | selected index v =>
    exact calm_of_stays (leads_bind (stays_pushSelected _ v index) fun _ s _ => leads_pure _ s)
  | error e => exact .refl _

/-- **What the running task does to calls**, before anything is thrown. -/
theorem stirs_action (h : s.action = some (s₀, x)) :
    s.Stirs (fun op => s.task.resume = none ∧ ∃ s₁, fetch s = .ok op s₁) (endState x s₀) := by
  obtain ⟨r, hr, rfl, rfl⟩ | ⟨rfl, hr, -, -, -, ⟨-, rfl⟩ | ⟨-, rfl⟩⟩ := action_cases h
  · refine .calm (Calm.trans ?_ (calm_resumeWith r _))
    exact .of_eq rfl rfl rfl rfl rfl
  · exact stirs_leaveFrame .nil s₀
  · exact Stirs.mono (fun _ hop => ⟨hr, hop⟩) (stirs_step s₀)

end Turn

/-! ## Loading a program -/

namespace Machine

variable {m : Machine}

/-- The closure of a main task is a new one. -/
theorem load_closure (m : Machine) (chunk : ChunkId) :
    (m.load chunk).2.heap.closure m.shutdown.heap.closures.size =
      { template := m.shutdown.heap.templates.size } := by
  have hc : (m.load chunk).2.heap.closures =
      m.shutdown.heap.closures.push { template := m.shutdown.heap.templates.size } := rfl
  rw [Heap.closure, hc, Array.getD_eq_getD_getElem?, Array.getElem?_push_size]
  rfl

theorem load_template (m : Machine) (chunk : ChunkId) :
    (m.load chunk).2.heap.closureTemplate m.shutdown.heap.closures.size =
      mainTemplate m.shutdown.heap chunk := by
  have ht : (m.load chunk).2.heap.templates =
      m.shutdown.heap.templates.push (mainTemplate m.shutdown.heap chunk) := rfl
  rw [Heap.closureTemplate, load_closure, Heap.template, ht, Array.getD_eq_getD_getElem?,
    Array.getElem?_push_size]
  rfl

/-- When a program has been loaded its main task is the only one, and runs the main chunk from its
beginning. -/
theorem load_hasTask (hr : m.running = none) {chunk : ChunkId} {t : Task}
    (h : (m.load chunk).2.HasTask t) : ∃ handle f,
      t = Task.enter { id := m.vm.scheduler.nextId, handle } f
        (Array.replicate f.localCount .nil) ∧
      f.closure = m.shutdown.heap.closures.size ∧
      f.localCount = (mainTemplate m.heap chunk).frameSlots ∧
      f.chunk = chunk ∧ f.ip = 0 ∧ f.stackBase = 0 := by
  have hsame : mainTemplate m.shutdown.heap chunk = mainTemplate m.heap chunk := by
    rw [shutdown_heap]
    rfl
  have htemplate := (load_template m chunk).trans hsame
  rcases h with hrun | ⟨k, hk⟩
  · exact absurd (hr.symm.trans hrun) (by simp)
  · have hget : (({} : Std.ExtTreeMap TaskId Task).insert m.vm.scheduler.nextId _)[k]? =
      some t := hk
    rw [getElem?_insert_ite] at hget
    split at hget
    · rw [← Option.some.inj hget]
      exact ⟨_, _, rfl, rfl, congrArg Template.frameSlots htemplate,
        congrArg Template.chunk htemplate, rfl, rfl⟩
    · rw [Std.ExtTreeMap.getElem?_empty] at hget
      cases hget

end Machine

end TaskVm
