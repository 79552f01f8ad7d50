import TaskVm.Proofs.Copies
import TaskVm.Proofs.Jumps
import TaskVm.Proofs.Pending

/-!
# Traces of failures

A failure that ends a run comes with a trace: the frames of its task, innermost first, each with a
function and a source line. The line is looked up when the failure is there already, from the place
that the frame has come to. It is meant to be that of the instruction the frame is in the middle of.

So it is where all bytes of an instruction are on one line, as builders put them. The innermost
frame is at the instruction that fails, or at the operation that its task is parked on, and the
others are at their pending calls. The exception is an instruction that leaves more operands than
fit. This is found out when the instruction is over, and if it has jumped, the place that the frame
has come to tells nothing of it.
-/

namespace TaskVm

open Exec Relation

/-! ## Lines of what is built -/

namespace Chunk

variable {c c' c₁ : Chunk} {js js' : List Jump} {op : Opcode} {line : Int32}

/-- Bytes are added with a line for each of them. Those that there are keep their lines. -/
def AddsLines (c c' : Chunk) : Prop :=
  ∃ lines, c'.lines = c.lines ++ lines ∧ c'.code.size = c.code.size + lines.size

theorem AddsLines.of_eq (hlines : c'.lines = c.lines) (hsize : c'.code.size = c.code.size) :
    c.AddsLines c' :=
  ⟨#[], hlines.trans Array.append_empty.symm, hsize⟩

theorem AddsLines.trans (h : c.AddsLines c') (h' : c'.AddsLines c₁) : c.AddsLines c₁ := by
  obtain ⟨lines, hlines, hsize⟩ := h
  obtain ⟨lines', hlines', hsize'⟩ := h'
  refine ⟨lines ++ lines', ?_, ?_⟩
  · rw [hlines', hlines, Array.append_assoc]
  · rw [hsize', hsize, Array.size_append, Nat.add_assoc]

theorem addsLines_emit (c : Chunk) (op : Opcode) (line : Int32) : c.AddsLines (c.emit op line) :=
  ⟨#[line], Array.push_eq_append, Array.size_push _⟩

theorem addsLines_emitByte (c : Chunk) (b : UInt8) : c.AddsLines (c.emitByte b) :=
  ⟨#[c.lastLine], Array.push_eq_append, Array.size_push _⟩

theorem addsLines_emitWord (c : Chunk) (w : UInt16) : c.AddsLines (c.emitWord w) :=
  (addsLines_emitByte c _).trans (addsLines_emitByte _ _)

theorem addsLines_addConstant? {v : Value} {index : Nat} (h : c.addConstant? v = some (index, c')) :
    c.AddsLines c' := by
  unfold addConstant? at h
  split at h
  · cases h
    exact .of_eq rfl rfl
  · cases h

theorem Emits.addsLines (h : c.Emits c') : c.AddsLines c' := by
  cases h with
  | opcode op line => exact addsLines_emit c op line
  | byte b => exact addsLines_emitByte c b
  | word w => exact addsLines_emitWord c w
  | offset i => exact addsLines_emitWord c _
  | constant h => exact addsLines_addConstant? h
  | pushConstant h =>
    obtain ⟨⟨index, c₁⟩, hadd, heq⟩ := Option.map_eq_some_iff.mp h
    cases heq
    exact (addsLines_addConstant? hadd).trans
      ((addsLines_emit c₁ _ _).trans (addsLines_emitWord _ _))

theorem addsLines_patchJump? {operand : Nat} (h : c.patchJump? operand = some c') :
    c.AddsLines c' := by
  have hsize := (patchJump?_eq_some h).2.1
  unfold patchJump? at h
  split at h
  · cases h
    exact .of_eq rfl hsize
  · cases h

theorem Built.addsLines (h : Built c c' js) : c.AddsLines c' := by
  induction h with
  | start => exact .of_eq rfl rfl
  | emits _ he ih => exact ih.trans he.addsLines
  | jump _ op line ih => exact ih.trans ((addsLines_emit _ op line).trans (addsLines_emitWord _ _))
  | patch _ _ hp ih => exact ih.trans (addsLines_patchJump? hp)
  | patchEarlier _ _ hp ih => exact ih.trans (addsLines_patchJump? hp)
  | loop _ start line ih =>
    exact ih.trans ((addsLines_emit _ .loop line).trans (addsLines_emitWord _ _))

/-- Operands are on the line of the byte that they come after. -/
theorem foldl_emitByte_lines (operands : List UInt8) (c : Chunk) :
    (operands.foldl emitByte c).lines = c.lines ++ Array.replicate operands.length c.lastLine := by
  induction operands generalizing c with
  | nil => exact Array.append_empty.symm
  | cons b operands ih =>
    have hlast : (c.emitByte b).lastLine = c.lastLine := by
      simp [lastLine, emitByte]
    rw [List.foldl_cons, ih, hlast, List.length_cons, Array.replicate_succ', ← Array.append_assoc,
      ← Array.push_eq_append]
    rfl

variable {operands : List UInt8}

/-- **Operands carry the line of their instruction**, whatever is built after it. -/
theorem lineAt_of_built (hbefore : Built {} c js)
    (hafter : Built (operands.foldl emitByte (c.emit op line)) c' js') :
    ∀ i ≤ operands.length, c'.lineAt (c.code.size + i) = line := by
  intro i hi
  obtain ⟨before, hlines, hsize⟩ := hbefore.addsLines
  have hsize : c.lines.size = c.code.size := by simp [hlines, hsize]
  obtain ⟨more, hmore, -⟩ := hafter.addsLines
  have hlast : (c.emit op line).lastLine = line := by simp [lastLine, emit]
  have hfirst : (c.emit op line).lines = c.lines ++ #[line] := Array.push_eq_append
  -- First what was there before, then the line as often as the instruction has bytes.
  have hall : c'.lines = c.lines ++ (Array.replicate (operands.length + 1) line ++ more) := by
    rw [hmore, foldl_emitByte_lines, hlast, hfirst, Array.replicate_succ']
    simp only [Array.append_assoc]
  have hmem : i < (Array.replicate (operands.length + 1) line).size := by
    rw [Array.size_replicate]
    omega
  rw [lineAt, hall, Array.getD_eq_getD_getElem?, ← hsize,
    Array.getElem?_append_right (Nat.le_add_right _ _), Nat.add_sub_cancel_left,
    Array.getElem?_append_left hmem, Array.getElem?_eq_getElem hmem, Array.getElem_replicate]
  rfl

end Chunk

/-! ## Lines of instructions -/

namespace Begun

variable {log : List Begun} {b : Begun} {h : Heap} {g : Frame} {task : TaskId}

/-- Where the instruction is in the source. -/
def source (h : Heap) (b : Begun) : TraceEntry :=
  ⟨b.frame.functionName h, b.frame.lineAt h b.frame.ip⟩

/-- All bytes of the instruction are on the line of its opcode. A byte that is no opcode is on the
line of the byte in front of it. -/
def Uniform (h : Heap) (b : Begun) : Prop :=
  (b.op ≠ none → ∀ i < b.length, b.frame.lineAt h (b.frame.ip + i) = b.frame.lineAt h b.frame.ip) ∧
  (b.op = none → b.frame.lineAt h (b.frame.ip - 1) = b.frame.lineAt h b.frame.ip)

instance (h : Heap) (b : Begun) : Decidable (b.Uniform h) := inferInstanceAs (Decidable (_ ∧ _))

/-- Builders put all bytes of an instruction on one line. So what is begun within the bytes of one
that has been emitted is on one line as well. -/
theorem uniform_of_built {c : Chunk} {js js' : List Chunk.Jump} {op : Opcode} {line : Int32}
    {operands : List UInt8} {i : Nat} (hbefore : Chunk.Built {} c js)
    (hafter : Chunk.Built (operands.foldl Chunk.emitByte (c.emit op line))
      (h.chunk b.frame.chunk) js')
    (hip : b.frame.ip = c.code.size + i) (hi : i ≤ operands.length)
    (hwithin : b.op ≠ none → i + b.length ≤ operands.length + 1) (hstuck : b.op = none → 0 < i) :
    b.Uniform h := by
  have hline := Chunk.lineAt_of_built hbefore hafter
  have hhere : b.frame.lineAt h b.frame.ip = line := by
    rw [Frame.lineAt, hip, hline i hi]
  refine ⟨fun hop k hk => ?_, fun hop => ?_⟩
  · have := hwithin hop
    rw [hhere, Frame.lineAt, hip, Nat.add_assoc, hline (i + k) (by omega)]
  · have := hstuck hop
    rw [hhere, Frame.lineAt, hip, Nat.add_sub_assoc this, hline (i - 1) (by omega)]

/-- The byte in front of the place that a frame has come to is one of the instruction's. -/
theorem Uniform.source_eq (hu : b.Uniform h) (hg : b.Holds g) :
    (⟨g.functionName h, g.lineAt h (g.ip - 1)⟩ : TraceEntry) = b.source h := by
  cases hg with
  | @read op ip hop hlt hle =>
    have hline := hu.1 (by rw [hop]; exact Option.some_ne_none _) (ip - 1 - b.frame.ip) (by omega)
    rw [show b.frame.ip + (ip - 1 - b.frame.ip) = ip - 1 by omega] at hline
    exact congrArg (TraceEntry.mk _) hline
  | stuck hop => exact congrArg (TraceEntry.mk _) (hu.2 hop)

theorem mem_of_last (hb : last log task = some b) : b ∈ log :=
  (List.mem_filter.mp (List.mem_of_getLast? hb)).1

theorem mem_of_lastIn {activation : Nat} (hb : lastIn log task activation = some b) : b ∈ log :=
  (List.mem_filter.mp (List.mem_filter.mp (List.mem_of_getLast? hb)).1).1

end Begun

namespace Task

variable {log : List Begun} {t : Task} {b : Begun} {h : Heap} {f : Frame} {fs : List Frame}

/-- A trace tells what a task is in the middle of. Its first entry is where the instruction is that
the task has begun last, which the innermost frame is at. There is one more entry for each of the
other frames: where the call is that it waits for, the last instruction that it has begun. -/
def TracedTo (log : List Begun) (h : Heap) (t : Task) (trace : List TraceEntry) (b : Begun) :
    Prop :=
  ∃ f fs outer, t.frames = f :: fs ∧ trace = (b :: outer).map (Begun.source h) ∧
    Begun.last log t.id = some b ∧ b.Holds f ∧
    List.Forall₂ (fun g c => Begun.lastIn log t.id g.activation = some c ∧ c.op = some .call ∧
      c.Holds g) fs outer

/-- So it is with the trace of a task, as long as lines are where instructions are. -/
theorem tracedTo_trace (hcalls : t.AwaitsCalls log) (hu : ∀ c ∈ log, c.Uniform h)
    (hf : t.frames = f :: fs) (hlast : Begun.last log t.id = some b) (hb : b.Holds f) :
    t.TracedTo log h (t.trace h) b := by
  unfold AwaitsCalls at hcalls
  rw [hf, List.tail_cons] at hcalls
  obtain ⟨outer, houter⟩ := Heap.exists_forall₂ hcalls
  refine ⟨f, fs, outer, hf, ?_, hlast, hb, houter⟩
  rw [trace, hf, List.map_cons, (hu b (Begun.mem_of_last hlast)).source_eq hb]
  refine congrArg (b.source h :: ·) ?_
  -- The frames behind have their entries one by one, each from its own call.
  clear hcalls hf
  induction houter with
  | nil => rfl
  | cons hc _ ih =>
    rw [List.map_cons, List.map_cons, ih,
      (hu _ (Begun.mem_of_lastIn hc.1)).source_eq hc.2.2]

end Task

/-! ## Failures of runs -/

namespace Machine

variable {ok : Machine → Prop} {m : Machine} {ms : List Machine} {notices : List Notice}
  {failure : Failure}

/-- The task that a failure comes from, as it is then. When nobody can go on, that is the main
task. -/
def culprit? (m : Machine) : Option Task :=
  match m.running with
  | some task => some (m.turn task).advance.2.task
  | none => m.vm.main.bind m.vm.scheduler.get?

/-- The next tick executes an instruction that leaves more operands than fit, and has gone on
elsewhere by then. -/
def strays (m : Machine) : Bool := m.running.any fun task => (m.turn task).strays

/-- When nobody can go on, the main task is parked. -/
theorem main_waits (hm : m.Fit) (hr : m.running = none) (hq : m.vm.scheduler.queue = [])
    (hmain : m.vm.main ≠ none) :
    ∃ t, m.vm.main.bind m.vm.scheduler.get? = some t ∧ m.HasTask t ∧ m.crew.Waits t.id := by
  obtain ⟨id, hid⟩ := Option.ne_none_iff_exists'.mp hmain
  rcases hm.tended.main id hid with ⟨b, hb, -⟩ | hheld
  · rw [crew, hr] at hb
    cases hb
  · rw [held_eq] at hheld
    have hget : m.vm.scheduler.get? id ≠ none := fun hnone => hheld (by rw [hnone]; rfl)
    obtain ⟨t, ht⟩ := Option.ne_none_iff_exists'.mp hget
    have hheld : m.crew.held id = some t.badge := by rw [held_eq, ht]; rfl
    -- If it were not blocked, it would have its place in the queue.
    have hst : m.crew.status t.badge.handle = .blocked := by
      refine Classical.not_not.mp fun hne => ?_
      have hqueued := (hm.tended.ready id _ hheld hne).2
      rw [show m.crew.queue = [] from hq] at hqueued
      cases hqueued
    have hwait := Crew.wait_held hm.tended hheld
    rw [← held_task hm.tended ht] at hwait
    exact ⟨t, by rw [hid]; exact ht, .inr ⟨id, ht⟩, _, hwait, .inl (beq_iff_eq.mpr hst)⟩

/-- **A deadlock** is traced to the operation that the main task is parked on. -/
theorem deadlock_traced {log : List Begun} (hacc : m.Accounted log) (hm : m.Fit)
    (hr : m.running = none) (hmain : m.vm.main ≠ none)
    (hfail : m.dispatch.outcome = some (.failed failure))
    (hu : ∀ b ∈ log, b.Uniform m.dispatch.scene) :
    ∃ task b, m.vm.main.bind m.vm.scheduler.get? = some task ∧
      task.TracedTo log m.dispatch.scene failure.trace b ∧ b.op.any Opcode.parks = true := by
  cases hq : m.vm.scheduler.queue with
  | cons id queue =>
    obtain ⟨t, -, -, hnext⟩ := takeNext_eq hm.tended hq
    rw [dispatch, hnext] at hfail
    cases hfail
  | nil =>
    obtain ⟨t, ht, htask, hwaits⟩ := main_waits hm hr hq hmain
    obtain ⟨f, fs, b, hf, hlast, hparks, hb⟩ := hacc.parked t htask hwaits
    have hscene : m.dispatch.scene = m.shutdown.heap := by rw [dispatch_idle hq]; rfl
    have htrace : failure.trace = t.trace m.dispatch.scene := by
      rw [dispatch_idle hq, deadlock, ht] at hfail
      injection hfail with hfail
      injection hfail with hfail
      rw [← hfail, hscene, shutdown_heap]
      rfl
    refine ⟨t, b, ht, ?_, hparks⟩
    rw [htrace]
    exact Task.tracedTo_trace (hacc.calls t htask) hu hf hlast hb

/-- **A failure of the running task** is traced to the instruction that it has begun, or to the
operation whose outcome it has picked up. -/
theorem turn_traced {log : List Begun} {task : Task} {s : Turn} (hacc : m.Accounted log)
    (hm : m.Fit) (hup : m.Upright) (hr : m.running = some task) (hstrays : m.strays = false)
    (hfail : (m.turn task).advance = (some (.failed failure), s))
    (hu : ∀ b ∈ log ++ m.begun?.toList, b.Uniform s.heap) :
    ∃ b, s.task.TracedTo (log ++ m.begun?.toList) s.heap failure.trace b ∧
      (m.begun? = some b ∨ m.begun? = none ∧ b.op.any Opcode.parks = true) := by
  have hbegun := begun?_turn hr
  have hid : s.task.id = task.id := by
    have hattends := attends_of_deeds (Turn.deeds_advance hm.tame) (hm.turn hr)
    rw [hfail] at hattends
    exact hattends.id
  have hcalls : s.task.AwaitsCalls (log ++ m.begun?.toList) := by
    have h := (hacc.turn hr).calls_advance (hup.turn hr)
    rw [hfail] at h
    rw [hbegun]
    exact h hid
  have hstrays : (m.turn task).strays = false := by
    unfold strays at hstrays
    rwa [hr] at hstrays
  obtain ⟨htrace, hat⟩ := Turn.advance_failed (hup.turn hr) hm.tame hstrays hfail
  rw [htrace]
  -- What is left is to find the instruction that the innermost frame is at.
  cases hat with
  | @begun f g fs hb hf hg hholds =>
    refine ⟨_, Task.tracedTo_trace hcalls hu hg ?_ hholds, .inl (hbegun.trans hb)⟩
    rw [hbegun, hb, Option.toList_some, hid]
    exact Begun.last_append_self log _
  | waited hb hresume hf =>
    have hwaits : m.crew.Waits task.id :=
      ⟨_, Crew.wait_running (c := m.crew) (b := task.badge) (by rw [crew, hr]; rfl), .inr hresume⟩
    obtain ⟨f, fs, b, hf', hlast, hparks, hholds⟩ := hacc.parked task (.inl hr) hwaits
    refine ⟨b, Task.tracedTo_trace hcalls hu (hf.trans hf') ?_ hholds,
      .inr ⟨hbegun.trans hb, hparks⟩⟩
    rw [hbegun, hb, Option.toList_none, List.append_nil, hid]
    exact hlast

/-- **Failures are traced to their instructions**, where the bytes of each instruction are on one
line. The trace lists the frames that the task is in the middle of, innermost first. The first entry
tells the function and the line of the instruction that fails. That is the one that the tick has
begun, or else the operation that the task has been parked on. Every other entry tells the function
and the line of the call that its frame waits for. Left out are instructions that go on elsewhere
and leave more operands than fit. -/
theorem Heard.traces_failures {hosts : Array HostFunction} (ht : ∀ f ∈ hosts, f.Tame) {h : Heap}
    {id : VmId} {config : VmConfig} {dice : Dice}
    (hrun : Heard ok (create hosts h id config dice) ms notices m) (hmain : m.vm.main ≠ none)
    (hfail : m.tick.outcome = some (.failed failure))
    (hlines : ∀ b ∈ (ms ++ [m]).filterMap begun?, b.Uniform m.tick.scene)
    (hstrays : m.strays = false) :
    ∃ task b, m.culprit? = some task ∧
      task.TracedTo ((ms ++ [m]).filterMap begun?) m.tick.scene failure.trace b ∧
      (m.begun? = some b ∨ m.begun? = none ∧ b.op.any Opcode.parks = true) := by
  have hnew := create_fit ht h id config dice
  have hupright := create_upright hosts h id config dice
  have hacc := hrun.accounted hnew hupright (create_accounted hosts h id config dice)
  obtain ⟨_, hmoves⟩ := hrun.run
  have hm := hmoves.fit hnew
  rw [begun_append] at hlines ⊢
  -- With nobody running the failure is a deadlock, which is blamed on the main task; otherwise it
  -- is the running task's own.
  cases hr : m.running with
  | none =>
    have hnone := begun?_idle hr
    rw [tick_between hr] at hfail hlines ⊢
    rw [hnone, Option.toList_none, List.append_nil] at hlines ⊢
    obtain ⟨task, b, htask, htraced, hparks⟩ := deadlock_traced hacc hm hr hmain hfail hlines
    have hculprit : m.culprit? = some task := by
      rw [culprit?, hr]
      exact htask
    exact ⟨task, b, hculprit, htraced, .inr ⟨rfl, hparks⟩⟩
  | some task =>
    cases ha : (m.turn task).advance with
    | mk o s =>
      cases o with
      | none =>
        rw [tick_goes hr ha] at hfail
        cases hfail
      | some o =>
        rw [tick_ends hr ha] at hfail hlines ⊢
        obtain rfl := (s.over_endTurn o).failed hfail
        obtain ⟨b, htraced, hwhich⟩ :=
          turn_traced hacc hm (hmoves.upright hnew hupright) hr hstrays ha hlines
        have hculprit : m.culprit? = some s.task := by
          rw [culprit?, hr]
          exact congrArg (fun r : Option TurnEnd × Turn => some r.2.task) ha
        exact ⟨s.task, b, hculprit, htraced, hwhich⟩

/-- A function that throws is called on the line below the one that names it. -/
def thrown : Heap where
  closures := #[{ template := 0 }]
  templates := #[{ name := "bad", chunk := 1 }]
  chunks := #[
    { ((((({} : Chunk).emit .constant 7).emitWord 0).emit .call 8).emitByte 0).emit .ret 9 with
      constants := #[.closure 0] },
    (({} : Chunk).emit .pushTrue 3).emit .throwValue 4]

/-- The trace tells the line of the throw and the line of the call. -/
theorem thrown_traced : ∃ ms notices m failure,
    Heard (grounded · = true) (create #[] thrown 0 {} {}) ms notices m ∧
    m.tick.outcome = some (.failed failure) ∧ failure.trace = [⟨"bad", 4⟩, ⟨"<main>", 8⟩] ∧
    ∃ task b, m.culprit? = some task ∧
      task.TracedTo ((ms ++ [m]).filterMap begun?) m.tick.scene failure.trace b ∧
      (m.begun? = some b ∨ m.begun? = none ∧ b.op.any Opcode.parks = true) := by
  have hrun : ((hearFor grounded 4 ((create #[] thrown 0 {} {}).load 0).2 [] [.loaded 0]).any
      fun (r : List Machine × List Notice × Machine) =>
        decide (r.2.2.tick.outcome = some (.failed ⟨.unhandledException "true",
          [⟨"bad", 4⟩, ⟨"<main>", 8⟩]⟩) ∧ r.2.2.vm.main ≠ none ∧ r.2.2.strays = false ∧
          ∀ b ∈ (r.1 ++ [r.2.2]).filterMap begun?, b.Uniform r.2.2.tick.scene)) = true := by
    decide +kernel
  obtain ⟨⟨ms, notices, m⟩, hticks, hp⟩ := (Option.any_eq_true _ _).mp hrun
  obtain ⟨hfail, hmain, hstrays, hlines⟩ := of_decide_eq_true hp
  have hheard := heard_of_hearFor (Heard.refl.load rfl 0) hticks
  exact ⟨ms, notices, m, _, hheard, hfail, rfl,
    Heard.traces_failures (by simp) hheard hmain hfail hlines hstrays⟩

/-- More local variables than there is room for. A jump goes over the instruction that names the
last one of them. -/
def overfull : Chunk :=
  let jumping := (((({} : Chunk).emitJump .jump 1).2.emit .loadFast 2).emitByte 1).emit .pop 2
  ((jumping.patchJump? 1).getD jumping).emit .halt 3

/-- A jump that leaves more operands than fit. -/
def leaping : Heap where
  chunks := #[overfull]

/-- It is the jump that fails, but the trace tells the line in front of the place that it has gone
to. The chunk has been made by the builders. -/
theorem leaping_misplaced : Chunk.Built {} overfull [⟨.jump, 0, some 6⟩] ∧
    ∃ ms notices m failure b, Heard (grounded · = true)
      (create #[] leaping 0 { stackCapacity := 1 } {}) ms notices m ∧
      m.vm.main ≠ none ∧ m.tick.outcome = some (.failed failure) ∧
      (∀ b ∈ (ms ++ [m]).filterMap begun?, b.Uniform m.tick.scene) ∧ m.begun? = some b ∧
      b.source m.tick.scene = ⟨"<main>", 1⟩ ∧ failure.trace = [⟨"<main>", 2⟩] := by
  refine ⟨?_, ?_⟩
  · exact .emits (.patch (.emits (.emits (.emits (.jump .start .jump 1) (.opcode .loadFast 2))
      (.byte 1)) (.opcode .pop 2)) (List.mem_singleton.mpr rfl) rfl) (.opcode .halt 3)
  · have hrun : ((hearFor grounded 1 ((create #[] leaping 0 { stackCapacity := 1 } {}).load 0).2 []
        [.loaded 0]).any fun (r : List Machine × List Notice × Machine) =>
          decide (r.2.2.vm.main ≠ none ∧ r.2.2.tick.outcome = some (.failed ⟨.stackOverflow 1,
            [⟨"<main>", 2⟩]⟩) ∧
            (∀ b ∈ (r.1 ++ [r.2.2]).filterMap begun?, b.Uniform r.2.2.tick.scene) ∧
            r.2.2.begun?.map (Begun.source r.2.2.tick.scene) = some ⟨"<main>", 1⟩)) = true := by
      decide +kernel
    obtain ⟨⟨ms, notices, m⟩, hticks, hp⟩ := (Option.any_eq_true _ _).mp hrun
    obtain ⟨hmain, hfail, hlines, hsource⟩ := of_decide_eq_true hp
    obtain ⟨b, hb, hsource⟩ := Option.map_eq_some_iff.mp hsource
    exact ⟨ms, notices, m, _, b, heard_of_hearFor (Heard.refl.load rfl 0) hticks, hmain, hfail,
      hlines, hb, hsource, rfl⟩

end Machine

end TaskVm
