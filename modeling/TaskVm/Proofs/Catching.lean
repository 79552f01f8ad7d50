import TaskVm.Proofs.Executing

/-!
# Throws that are caught

A handler goes back to where it was registered: to the frames there were, and to the operands and
iterations there were, unless code has reached down to them in the meantime. That frames and
handlers come back takes no care of the code at all, and is the case of a ground without operands
and iterations.
-/

namespace TaskVm

open Exec Relation

/-- A local of an activation is changed by its own frame. -/
def Act.stores (task : TaskId) (activation : Nat) : Act → Bool
  | .localSet var _ => var.task == task && var.activation == activation
  | _ => false

namespace Machine

variable {m m' : Machine} {task : Task} {f : Frame} {callers : List Frame} {target : Nat}
  {s s' : Turn} {v : Value}

/-- The next tick registers a handler for the innermost frame. The turn is `s` when the
instruction has been read, and the handler is to go on at a target. -/
structure Tries (m : Machine) (task : Task) (f : Frame) (callers : List Frame) (target : Nat)
    (s : Turn) : Prop where
  read : ∃ s₀ offset, m.Executes task .tryBegin s₀ ∧ readOffset s₀ = .ok offset s ∧
    f.jumpTarget? s.heap offset = some target
  frames : s.task.frames = f :: callers

/-- The handler that the next tick registers, if it registers one. -/
def protection? (m : Machine) : Option (Task × Frame × List Frame × Nat × Turn) :=
  match m.opcode? with
  | some (task, .tryBegin, s₀) =>
    match readOffset s₀ with
    | .ok offset s =>
      match s.task.frames with
      | f :: callers =>
        (f.jumpTarget? s.heap offset).map fun target => (task, f, callers, target, s)
      | [] => none
    | .error _ _ => none
  | _ => none

theorem tries_of_protection? (h : m.protection? = some (task, f, callers, target, s)) :
    m.Tries task f callers target s := by
  unfold protection? at h
  split at h
  · rename_i task' s₀ hop
    split at h
    · rename_i offset s' hoffset
      split at h
      · rename_i f' callers' hf
        obtain ⟨target', htarget, heq⟩ := Option.map_eq_some_iff.mp h
        cases heq
        exact ⟨⟨s₀, offset, executes_of_opcode? hop, hoffset, htarget⟩, hf⟩
      · cases h
    · cases h
  · cases h

namespace Tries

theorem running (hc : m.Tries task f callers target s) : m.running = some task := by
  obtain ⟨s₀, offset, hs₀, -⟩ := hc.read
  exact hs₀.running

theorem scans (hc : m.Tries task f callers target s) : (m.turn task).Scans s := by
  obtain ⟨s₀, offset, hs₀, hoffset, -⟩ := hc.read
  exact hs₀.scans.trans (scans_readOffset hoffset)

theorem deeds (hc : m.Tries task f callers target s) : Deeds (m.turn task) s := by
  obtain ⟨s₀, offset, hs₀, hoffset, -⟩ := hc.read
  exact deeds_of_changes (hs₀.changes.trans ((leads_readOffset s₀).of_ok hoffset))

/-- All that the instruction does is to register the handler. -/
theorem protects (hc : m.Tries task f callers target s) : ∃ s₀, m.Executes task .tryBegin s₀ ∧
    execute .tryBegin s₀ = .ok .next { s with task := s.task.protect f target } := by
  obtain ⟨s₀, offset, hs₀, hoffset, htarget⟩ := hc.read
  have hbegin : tryBegin s₀ = .ok ⟨⟩ { s with task := s.task.protect f target } := by
    rw [tryBegin, bind_ok hoffset, get_bind_apply, bind_ok (frame_ok _ hc.frames)]
    simp only [htarget]
    rfl
  refine ⟨s₀, hs₀, ?_⟩
  unfold execute
  dsimp only
  rw [bind_ok hbegin]
  rfl

theorem upright (hc : m.Tries task f callers target s) (hu : m.Upright) :
    (s.task.protect f target).Upright s.heap := by
  have hs := (upright_of_deeds hc.deeds (hu.turn hc.running)).running
  obtain ⟨s₀, offset, hs₀, hoffset, htarget⟩ := hc.read
  exact hs.protect hc.frames (jumpTarget?_le htarget)

end Tries

/-! ## What is below a handler -/

/-- The ground of a handler that a task registers for its innermost frame. -/
def tryGround (task : Task) (f : Frame) (callers : List Frame) (target : Nat)
    (stack : Array Value) (iterations : List Iteration) (written : Nat → Prop) : Ground where
  task := task.id
  owner := .handler task.registrations
  frame := f
  callers
  handlers := (task.protect f target).handlers
  stack
  iterations
  written

variable {stack : Array Value} {iterations : List Iteration} {written : Nat → Prop}

theorem underTry {h : Heap} (hu : (task.protect f target).Upright h)
    (hf : task.frames = f :: callers) (hs : stack.size ≤ task.stack.size)
    (hi : iterations.length ≤ task.iterations.length) :
    (tryGround task f callers target stack iterations written).UnderTry task.registrations where
  owner := rfl
  nested hd hhd := by
    have hle := (hu.registered hd hhd).depth.2
    rwa [show (task.protect f target).frames = f :: callers from hf] at hle
  handler := by
    refine ⟨_, task.handlers, rfl, rfl, ⟨?_, hs, hi⟩, ?_⟩
    · exact Nat.le_of_eq (congrArg List.length hf).symm
    · exact (List.pairwise_cons.mp hu.counted.apart).1

/-- Right after it has been registered there is nothing above it. -/
theorem tryGround_stands (hf : task.frames = f :: callers)
    (hs : (tryGround task f callers target stack iterations written).Stack task.stack)
    (hi : (tryGround task f callers target stack iterations written).Iterations task.iterations) :
    (tryGround task f callers target stack iterations written).Stands
      (task.protect f target) where
  given := Nat.lt_succ_self _
  bears _ :=
    { frames := ⟨[], f.ip, hf, by simp⟩
      handlers := ⟨[], rfl, by simp⟩
      stack := hs
      iterations := hi }

theorem Tries.stands (hc : m.Tries task f callers target s) (hm : m.Fit) (hu : m.Upright)
    (hfirm : (tryGround s.task f callers target stack iterations written).Firm)
    (hstands : (tryGround s.task f callers target stack iterations written).Stands
      (s.task.protect f target)) :
    m.tick.outcome = none ∧ m.tick.machine.Keeps task.id
      (tryGround s.task f callers target stack iterations written).Stands := by
  obtain ⟨s₀, hs₀, hprotects⟩ := hc.protects
  have hadvance := hs₀.advance_next hprotects
  split at hadvance
  · -- There are too many operands already, and the new handler is the first to catch that.
    let error := RuntimeError.stackOverflow (s.task.protect f target).frames.length
    let s₁ : Turn := { s with
      task := s.task.protect f target
      events := s.events ++ [.raised s.task.id error] }
    have hu₁ : s₁.task.Upright s₁.heap := hc.upright hu
    have hnone : (s₁.unwind (.error error)).1 = none := (Turn.unwind_resumes hu₁ rfl _).1
    have hadvance : (m.turn task).advance = (none, (s₁.unwind (.error error)).2) :=
      hadvance.trans (Prod.ext hnone rfl)
    have hdeed : Deed s₁ (s₁.unwind (.error error)).2 := .unwind rfl _
    obtain ⟨hgiven, hback⟩ := hdeed.owners _ hstands.given
    refine ⟨by rw [tick_goes hc.running hadvance], .after hm hc.running ?_⟩
    rw [hadvance]
    exact ⟨hgiven, fun hon => (hstands.bears (hback hon)).unwind hfirm hu₁ rfl _ hon⟩
  · refine ⟨by rw [tick_goes hc.running hadvance], .after hm hc.running ?_⟩
    rw [hadvance]
    exact hstands

/-! ## Catching -/

section

variable {hd : Handler} {rest : List Handler}

/-- **Where a handler goes back to.** -/
theorem catch_frames
    (hc : (tryGround task f callers target stack iterations written).UnderTry task.registrations)
    (hb : (tryGround task f callers target stack iterations written).Bears s.task)
    (hu : s.task.Upright s.heap) (hf : task.frames = f :: callers)
    (hh : s.task.handlers = hd :: rest) (hr : hd.registration = task.registrations) :
    (s.unwind v).1 = none ∧
      (s.unwind v).2.task.frames = { f with ip := target } :: callers ∧
      (s.unwind v).2.task.handlers = hd :: task.handlers := by
  obtain ⟨hnone, f', callers', hdrop, -, hframes⟩ := Turn.unwind_resumes hu hh v
  -- The handler has on record what there was when it was registered.
  obtain ⟨rfl, rfl⟩ := List.cons.inj (hc.innermost hb hu hh hr)
  have hdepth : task.frames.length = callers.length + 1 := congrArg List.length hf
  have hdrop : s.task.frames.drop (s.task.frames.length - (callers.length + 1)) =
      f' :: callers' := hdepth ▸ hdrop
  obtain ⟨ip, hground⟩ := hb.frames.resumes
  obtain ⟨rfl, rfl⟩ := List.cons.inj (hdrop.symm.trans hground)
  exact ⟨hnone, hframes, (s.unwind_handlers v).1.trans hh⟩

theorem catch_stacks
    (hc : (tryGround task f callers target task.stack task.iterations written).UnderTry
      task.registrations)
    (hb : (tryGround task f callers target task.stack task.iterations written).Bears s.task)
    (hu : s.task.Upright s.heap) (hh : s.task.handlers = hd :: rest)
    (hr : hd.registration = task.registrations) :
    (∃ S : Array Value, (s.unwind v).2.task.stack = S.push v ∧ S.size = task.stack.size ∧
      ∀ slot < task.stack.size, ¬ written slot → S[slot]? = task.stack[slot]?) ∧
    Iteration.MovedOn task.iterations (s.unwind v).2.task.iterations := by
  obtain ⟨hstack, hiterations, -⟩ := Turn.unwind_stacks hh v
  obtain ⟨rfl, rfl⟩ := List.cons.inj (hc.innermost hb hu hh hr)
  refine ⟨⟨_, hstack, hb.stack.cut⟩, ?_⟩
  rw [hiterations]
  exact hb.iterations.resumes

end

/-- The next tick, if a handler is there, leaves alone as many operands and iterations as there
were when a task registered it for its frame, but for some slots. Whoever has the turn changes only
such slots of the task as open captured variables. -/
structure KeepsAbove (task : Task) (f : Frame) (written : Nat → Prop) (m : Machine) : Prop where
  spares : ∀ t, m.running = some t → t.id = task.id →
    (∃ hd ∈ t.handlers, hd.registration = task.registrations) →
    ∀ x ∈ m.touches, x.spares task.stack.size task.iterations.length = true
  locals : ∀ index v, .localSet ⟨task.id, f.activation, index⟩ v ∈ m.tick.acts →
    f.stackBase + index < task.stack.size → written (f.stackBase + index)
  slots : ∀ slot, .slot task.id slot ∈ m.touches → written slot

/-- Nothing below is changed at all. -/
def sparesAll (task : Task) (f : Frame) (m : Machine) : Bool :=
  (m.touches.all fun x => x.spares task.stack.size task.iterations.length && !x.isSlot) &&
    m.tick.acts.all fun a => !a.stores task.id f.activation

theorem keepsAbove_of_sparesAll (h : m.sparesAll task f = true) :
    m.KeepsAbove task f fun _ => False := by
  obtain ⟨htouches, hacts⟩ := Bool.and_eq_true_iff.mp h
  refine ⟨fun t _ _ _ x hx => ?_, fun index v hmem _ => ?_, fun slot hx => ?_⟩
  · exact (Bool.and_eq_true_iff.mp (List.all_eq_true.mp htouches x hx)).1
  · have hstores := List.all_eq_true.mp hacts _ hmem
    simp [Act.stores] at hstores
  · have hslot := (Bool.and_eq_true_iff.mp (List.all_eq_true.mp htouches _ hx)).2
    cases hslot

theorem KeepsAbove.minds (h : m.KeepsAbove task f written) :
    m.Minds (tryGround task f callers target task.stack task.iterations written) where
  own t hr hid hon :=
    { spares := h.spares t hr hid hon
      slots := h.slots
      locals := fun index v hmem => h.locals index v (tick_acts hr ▸ hmem) }
  slots := h.slots

/-- Any tick leaves alone a ground without operands and iterations. -/
theorem minds_bare : m.Minds (tryGround task f callers target #[] [] fun _ => True) where
  own _ _ _ _ :=
    { spares := fun x _ => by
        cases x <;> simp [Ground.Spares, tryGround, Touch.spares]
      slots := fun _ _ => trivial
      locals := fun _ _ _ _ => trivial }
  slots _ _ := trivial

variable {ok ok' : Machine → Prop} {hist' : List Act} {task' : Task} {hd : Handler}
  {rest : List Handler}

/-- At a throw to the handler the task stands on the handler's ground. -/
theorem Tries.bears (hc : m.Tries task f callers target s) (hm : m.Fit) (hu : m.Upright)
    (hunder : (tryGround s.task f callers target stack iterations written).UnderTry
      s.task.registrations)
    (hstands : (tryGround s.task f callers target stack iterations written).Stands
      (s.task.protect f target))
    (hlater : m' = m ∨ Run ok m.tick.machine hist' m')
    (hok : ∀ m, ok m → m.Minds (tryGround s.task f callers target stack iterations written))
    (hm' : m'.Minds (tryGround s.task f callers target stack iterations written))
    (hr : m'.running = some task') (hid : task'.id = task.id)
    (hthrown : (m'.turn task').thrown? = some (v, s')) (hh : s'.task.handlers = hd :: rest)
    (hreg : hd.registration = s.task.registrations) :
    s'.task.Upright s'.heap ∧
      (tryGround s.task f callers target stack iterations written).Bears s'.task := by
  have hon : (tryGround s.task f callers target stack iterations written).owner.On s'.task :=
    ⟨hd, hh ▸ List.mem_cons_self, hreg⟩
  rcases hlater with rfl | hrun
  · -- It is the instruction itself that has failed, when all was done.
    obtain rfl := Option.some.inj (hr.symm.trans hc.running)
    obtain ⟨s₀, hs₀, hprotects⟩ := hc.protects
    obtain ⟨events, rfl⟩ := hs₀.thrown_next hprotects hthrown
    exact ⟨hc.upright hu, hstands.bears hon⟩
  · obtain ⟨hend, hkeeps⟩ := hc.stands hm hu (.handler hunder) hstands
    have hfit := tick_fit hm (by rw [hend]; simp)
    have hu' := hrun.upright hfit (tick_upright hm hu)
    have hstands' := (hrun.stands hok hfit (tick_upright hm hu) (.handler hunder)
      (show m.tick.machine.Keeps s.task.id _ from hc.scans.id ▸ hkeeps)).holds task' (.inl hr)
      (hid.trans hc.scans.id.symm)
    have hfit' := hrun.fit hfit
    have hdeeds : Deeds (m'.turn task') s' := Turn.deeds_thrown hfit'.tame hthrown
    have hadvance := Turn.advance_thrown hthrown
    have hstands := hstands'.deeds (.handler hunder) hdeeds (hu'.turn hr) (hfit'.turn hr)
      (hid.trans hc.scans.id.symm) fun hon => ?_
    · exact ⟨(upright_of_deeds hdeeds (hu'.turn hr)).running, hstands.bears hon⟩
    -- The unwinding is on record too, as part of the tick.
    have hminds := hm'.own task' hr (hid.trans hc.scans.id.symm) hon
    rw [touches_eq hr, hadvance] at hminds
    obtain ⟨hacts, htouched⟩ := records_of_deeds
      (Turn.deeds_unwind s' v : DeedsIn Heap.Extends s' (s'.unwind v).2)
    exact hminds.mono hacts.subset htouched.subset

/-- Reading the instruction is no concern of what is below. -/
theorem Tries.keepsAbove (hc : m.Tries task f callers target s)
    (h : m'.KeepsAbove task f written) : m'.KeepsAbove s.task f written := by
  have hread : ∀ {s}, (m.turn task).Scans s → m'.KeepsAbove s.task f written := by
    rintro _ ⟨hf, ip, profiler, instructions⟩
    exact ⟨h.spares, h.locals, h.slots⟩
  exact hread hc.scans

theorem Tries.under (hc : m.Tries task f callers target s) (hu : m.Upright)
    (hs : stack.size ≤ s.task.stack.size) (hi : iterations.length ≤ s.task.iterations.length) :
    (tryGround s.task f callers target stack iterations written).UnderTry s.task.registrations :=
  underTry (hc.upright hu) hc.frames hs hi

variable {hosts : Array HostFunction} {h : Heap} {id : VmId} {config : VmConfig} {dice : Dice}
  {hist : List Act}

/-- **A throw that is caught goes back to where the handler was registered.** Let a frame register
a handler, and let something be thrown later, when that handler is the innermost one: a value, the
error of an instruction or of a native, or what a wait has come to. Then the frame goes on at the
handler's target with its callers as they were, and with the handlers it had and the new one,
whatever the code. If since then no fewer operands and iterations have been left than there were,
then they are there again with the value that was thrown. Only those operands may have changed that
are variables, of the frame itself or changed by closures that have captured them, and the
innermost iteration may have moved on. -/
theorem Run.catches_restore (ht : ∀ f ∈ hosts, f.Tame)
    (hr : Run ok (create hosts h id config dice) hist m) (hc : m.Tries task f callers target s)
    (hlater : m' = m ∨ Run ok' m.tick.machine hist' m') (hrunning : m'.running = some task')
    (hid : task'.id = task.id) (hthrown : (m'.turn task').thrown? = some (v, s'))
    (hh : s'.task.handlers = hd :: rest) (hreg : hd.registration = task.registrations) :
    ∃ t, m'.tick.machine.running = some t ∧ t.frames = { f with ip := target } :: callers ∧
      t.handlers = hd :: task.handlers ∧
      ∀ written, (∀ m₁, ok' m₁ → m₁.KeepsAbove task f written) → m'.KeepsAbove task f written →
        (∃ S : Array Value, t.stack = S.push v ∧ S.size = task.stack.size ∧
          ∀ slot < task.stack.size, ¬ written slot → S[slot]? = task.stack[slot]?) ∧
        Iteration.MovedOn task.iterations t.iterations := by
  have hfit := hr.fit (create_fit ht h id config dice)
  have hu := hr.upright (create_fit ht h id config dice) (create_upright hosts h id config dice)
  have hscans := hc.scans
  have hreg : hd.registration = s.task.registrations := hreg.trans hscans.registrations.symm
  have hbare : (tryGround s.task f callers target #[] [] fun _ => True).UnderTry
      s.task.registrations := hc.under hu (Nat.zero_le _) (Nat.zero_le _)
  -- Which frames there are does not depend on what has been written.
  obtain ⟨hu', hb⟩ := hc.bears hfit hu hbare
    (tryGround_stands hc.frames ⟨Nat.zero_le _, fun _ hslot => by cases hslot⟩
      ⟨s.task.iterations, [], (List.append_nil _).symm, rfl⟩)
    hlater (fun _ _ => minds_bare) minds_bare hrunning hid hthrown hh hreg
  obtain ⟨hnone, hframes, hhandlers⟩ := catch_frames hbare hb hu' hc.frames hh hreg (v := v)
  have hadvance : (m'.turn task').advance = (none, (s'.unwind v).2) :=
    (Turn.advance_thrown hthrown).trans (Prod.ext hnone rfl)
  refine ⟨(s'.unwind v).2.task, ?_, hframes, hhandlers.trans (by rw [hscans.handlers]; rfl),
    fun written hok hm' => ?_⟩
  · rw [tick_goes hrunning hadvance]
    rfl
  · have hunder : (tryGround s.task f callers target s.task.stack s.task.iterations
        written).UnderTry s.task.registrations := hc.under hu (Nat.le_refl _) (Nat.le_refl _)
    -- What is on the stacks does, so this ground has on record what there was.
    obtain ⟨-, hb⟩ := hc.bears hfit hu hunder
      (tryGround_stands hc.frames ⟨Nat.le_refl _, fun _ _ _ => rfl⟩
        ⟨[], s.task.iterations, rfl, Iteration.MovedOn.refl _⟩)
      hlater (fun m h => (hc.keepsAbove (hok m h)).minds) (hc.keepsAbove hm').minds hrunning hid
      hthrown hh hreg
    have hcatch := catch_stacks hunder hb hu' hh hreg (v := v)
    rw [hscans.stack, hscans.iterations] at hcatch
    exact hcatch

/-- A function catches what it throws and throws something else, which its caller catches. -/
def relapse : Heap where
  closures := #[{ template := 0 }]
  templates := #[{ name := "relapse", localCount := 1, chunk := 1 }]
  chunks := #[
    { code := assemble [(.pushFalse, []), (.newArray, [0, 0]), (.iterStart, []),
        (.tryBegin, [0, 6]), (.constant, [0, 0]), (.call, [0]), (.ret, []), (.ret, [])]
      constants := #[.closure 0] },
    { code := assemble [(.tryBegin, [0, 2]), (.pushTrue, []), (.throwValue, []),
        (.catchInto, [0, 0]), (.pushNil, []), (.throwValue, [])] }]

/-- The caller goes on with its operand and its iteration, and with what the function has thrown
last. -/
theorem relapse_restores : ∃ hist m task f s hist' m' task' s' t S,
    Run (fun _ => True) (create #[] relapse 0 {} {}) hist m ∧ m.Tries task f [] 14 s ∧
    Run (fun m => m.sparesAll task f = true) m.tick.machine hist' m' ∧
    m'.running = some task' ∧ task'.frames.length = 2 ∧
    (m'.turn task').thrown? = some (.nil, s') ∧ m'.tick.machine.running = some t ∧
    t.frames = [{ f with ip := 14 }] ∧ t.handlers.length = 1 ∧ t.stack = Array.push S .nil ∧
    S.size = 1 ∧ S[0]? = task.stack[0]? ∧ Iteration.MovedOn task.iterations t.iterations := by
  have hrun : ((tickFor (fun _ => true) 4 ((create #[] relapse 0 {} {}).load 0).2 []).any fun r =>
      r.2.protection?.any fun x =>
        (tickFor (sparesAll x.1 x.2.1) 7 r.2.tick.machine []).any fun r' =>
          r'.2.sparesAll x.1 x.2.1 && r'.2.running.any fun task' =>
            (r'.2.turn task').thrown?.any fun y => y.2.task.handlers.head?.any fun hd =>
              decide (x.2.2.1 = [] ∧ x.2.2.2.1 = 14 ∧ x.1.stack.size = 1 ∧ x.1.handlers = [] ∧
                task'.id = x.1.id ∧ task'.frames.length = 2 ∧ y.1 = .nil ∧
                hd.registration = x.1.registrations)) = true := by
    decide +kernel
  obtain ⟨⟨hist, m⟩, hticks, hp⟩ := (Option.any_eq_true _ _).mp hrun
  obtain ⟨⟨task, f, callers, target, s⟩, htry, hp⟩ := (Option.any_eq_true _ _).mp hp
  obtain ⟨⟨hist', m'⟩, hticks', hp⟩ := (Option.any_eq_true _ _).mp hp
  obtain ⟨hspares, hp⟩ := Bool.and_eq_true_iff.mp hp
  obtain ⟨task', hrunning, hp⟩ := (Option.any_eq_true _ _).mp hp
  obtain ⟨⟨v, s'⟩, hthrown, hp⟩ := (Option.any_eq_true _ _).mp hp
  obtain ⟨hd, hhead, hp⟩ := (Option.any_eq_true _ _).mp hp
  obtain ⟨rfl, rfl, hsize, hhandlers, hid, hlength, rfl, hreg⟩ := of_decide_eq_true hp
  obtain ⟨rest, hh⟩ := List.head?_eq_some_iff.mp hhead
  have hc := tries_of_protection? htry
  have hr := (run_of_tickFor (Run.refl.tail (.load rfl 0)) hticks).mono fun _ _ => trivial
  have hr' := run_of_tickFor .refl hticks'
  -- The general theorem at the run just evaluated.
  obtain ⟨t, ht, hframes, hprotected, hrest⟩ :=
    Run.catches_restore (by simp) hr hc (.inr hr') hrunning hid hthrown hh hreg
  obtain ⟨⟨S, hstack, hS, hslots⟩, hmoved⟩ := hrest (fun _ => False)
    (fun _ => keepsAbove_of_sparesAll) (keepsAbove_of_sparesAll hspares)
  refine ⟨hist, m, task, f, s, hist', m', task', s', t, S, hr, hc, hr', hrunning, hlength, hthrown,
    ht, hframes, ?_, hstack, hS.trans hsize, hslots 0 ?_ not_false, hmoved⟩
  · rw [hprotected, hhandlers]
    rfl
  · rw [hsize]
    exact Nat.zero_lt_one

end Machine

end TaskVm
