import TaskVm.Proofs.Decoding

/-!
# Instructions that leave calls alone

Calls are entered, left and protected by four instructions, and all the others have nothing to do
with them: they tell debuggers nothing, start no tasks, and leave the functions that are being
run and the handlers where they are, but for a handler that is dropped. Reading code is calm, and
so is what instructions do when they have been read.
-/

namespace TaskVm

open Exec Relation

/-- The functions that are being run, innermost first. -/
def Task.functions (t : Task) : List ClosureId := t.frames.map Frame.closure

/-- What a frame is for as long as it is there: a run of a closure, with its own operands from
some place on. -/
def Frame.entry (f : Frame) : ClosureId × Nat := (f.closure, f.stackBase)

/-- The calls that a task is in the middle of, innermost first. -/
def Task.entries (t : Task) : List (ClosureId × Nat) := t.frames.map Frame.entry

theorem Task.functions_eq (t : Task) : t.functions = t.entries.map Prod.fst := by
  rw [entries, List.map_map]
  rfl

theorem Task.functions_congr {t t' : Task} (h : t'.entries = t.entries) :
    t'.functions = t.functions := by
  rw [functions_eq, h, functions_eq]

theorem Task.entries_length (t : Task) : t.entries.length = t.frames.length := List.length_map ..

/-- Nothing has been called and nothing has been left, and no task has begun. -/
structure Turn.Calm (s s' : Turn) : Prop where
  events : s'.events = s.events
  id : s'.task.id = s.task.id
  entries : s'.task.entries = s.task.entries
  handlers : s'.task.handlers.Sublist s.task.handlers
  config : s'.vm.config = s.vm.config
  nextId : s'.vm.scheduler.nextId = s.vm.scheduler.nextId

namespace Turn.Calm

variable {s s' : Turn}

instance : IsPreorder Turn Turn.Calm where
  refl _ := ⟨rfl, rfl, rfl, List.Sublist.refl _, rfl, rfl⟩
  trans _ _ _ h h' := ⟨h'.events.trans h.events, h'.id.trans h.id,
    h'.entries.trans h.entries, h'.handlers.trans h.handlers, h'.config.trans h.config,
    h'.nextId.trans h.nextId⟩

theorem refl (s : Turn) : s.Calm s := refl_of Turn.Calm s

theorem trans {s'' : Turn} (h : s.Calm s') (h' : s'.Calm s'') : s.Calm s'' :=
  trans_of Turn.Calm h h'

/-- Only what is of no concern to calls has changed. -/
theorem of_eq (he : s'.events = s.events) (hv : s'.vm = s.vm) (hid : s'.task.id = s.task.id)
    (hf : s'.task.frames = s.task.frames) (hh : s'.task.handlers = s.task.handlers) :
    s.Calm s' := by
  refine ⟨he, hid, ?_, hh ▸ List.Sublist.refl _, congrArg Vm.config hv, ?_⟩
  · rw [Task.entries, hf, Task.entries]
  · rw [hv]

theorem depth (h : s.Calm s') : s'.task.frames.length = s.task.frames.length := by
  rw [← Task.entries_length, h.entries, Task.entries_length]

end Turn.Calm

theorem Turn.Scans.calm {s s' : Turn} (h : s.Scans s') : s.Calm s' := by
  obtain ⟨hf, ip, profiler, instructions⟩ := h
  refine ⟨rfl, rfl, ?_, List.Sublist.refl _, rfl, rfl⟩
  rw [Task.entries, Task.entries, hf]
  rfl

theorem Turn.Passes.calm {s s' : Turn} {n : Nat} (h : s.Passes n s') : s.Calm s' := by
  cases h with
  | none => exact .refl s
  | some hf hn => exact Turn.Scans.calm (.mk hf _ s.vm.profiler s.vm.instructions)

theorem Turn.Stays.calm {s s' : Turn} (h : s.Stays s') : s.Calm s' where
  events := h.events
  id := h.id
  entries := by rw [Task.entries, h.frames, Task.entries]
  handlers := h.handlers
  config := h.config
  nextId := h.nextId

namespace Exec

variable {α : Type} {s : Turn}

theorem calm_of_stays {x : Exec α} (h : Leads Turn.Stays x s) : Leads Turn.Calm x s :=
  Turn.Stays.calm h

theorem calm_of_takes {x : Exec α} {n : Nat} (h : Takes n x s) : Leads Turn.Calm x s := by
  unfold Takes at h
  cases hx : x s with
  | ok a s' =>
    rw [hx] at h
    exact leads_of_ok hx h.calm
  | error e s' =>
    rw [hx] at h
    obtain ⟨k, -, h⟩ := h
    rw [Leads, endState_error hx]
    exact h.calm

theorem calm_of_decodes {x : Exec α} {count most : Nat → Prop} (h : Decodes count most x s) :
    Leads Turn.Calm x s := by
  unfold Decodes at h
  cases hx : x s with
  | ok a s' =>
    rw [hx] at h
    obtain ⟨n, s₁, -, hpasses, hstays⟩ := h
    exact leads_of_ok hx (hpasses.calm.trans hstays.calm)
  | error e s' =>
    rw [hx] at h
    obtain ⟨n, s₁, -, hpasses, hstays⟩ := h
    rw [Leads, endState_error hx]
    exact hpasses.calm.trans hstays.calm

variable (s)

/-- The innermost frame goes on elsewhere in its code. -/
theorem calm_setFrame {f : Frame} {fs : List Frame} (hf : s.task.frames = f :: fs) (ip : Nat) :
    Leads Turn.Calm (modifyTask (·.setFrame { f with ip })) s := (scans_setFrame hf ip).calm

theorem calm_jump (offset : Int) : Leads Turn.Calm (jump offset) s := by
  unfold jump
  refine leads_bind (calm_of_stays (stays_frame s)) fun f s' hf => ?_
  obtain ⟨rfl, fs, hfs⟩ := frame_eq_ok s hf
  refine leads_get_bind (leads_bind (calm_of_stays (stays_ofExcept _ _)) fun g s' hg => ?_)
  obtain ⟨hg, rfl⟩ := ofExcept_eq_ok _ hg
  unfold Frame.jump at hg
  split at hg
  · obtain rfl := Except.ok.inj hg
    exact calm_setFrame _ hfs _
  · cases hg

theorem calm_countInstruction (op : Opcode) : Leads Turn.Calm (countInstruction op) s := by
  unfold countInstruction
  refine leads_bind (leads_modify ⟨rfl, rfl, rfl, List.Sublist.refl _, rfl, rfl⟩) fun _ s _ =>
    leads_get_bind ?_
  dsimp only
  split
  · split
    · exact calm_of_stays (stays_raise s _)
    · exact leads_pure _ s
  · exact leads_pure _ s

theorem calm_fetch : Leads Turn.Calm fetch s := by
  unfold fetch
  refine leads_bind (calm_of_stays (stays_frame s)) fun f s' hf => leads_get_bind ?_
  obtain ⟨rfl, fs, hfs⟩ := frame_eq_ok s hf
  split
  · exact calm_of_stays (stays_raise _ _)
  · split
    · exact calm_of_stays (stays_raise _ _)
    · exact leads_bind (calm_setFrame _ hfs _) fun _ _ _ => leads_pure _ _

/-- The opcodes that enter, leave and protect calls. -/
def isCallOp : Opcode → Bool
  | .call | .ret | .spawn | .tryBegin => true
  | _ => false

/-- **Instructions other than those for calls leave calls alone.** -/
theorem calm_execute {op : Opcode} (hop : isCallOp op = false) :
    Leads Turn.Calm (execute op) s := by
  by_cases hcontrol : isControlOp op = false
  · exact calm_of_decodes (decodes_execute hcontrol s)
  · -- What is left are the jumps.
    have hread := calm_of_takes (takes_readOffset s)
    cases op
    case jump | loop =>
      exact leads_bind hread fun offset s _ => leads_bind (calm_jump s offset) fun _ s _ =>
        leads_pure _ s
    case jumpIfFalse =>
      refine leads_bind hread fun offset s _ =>
        leads_bind (calm_of_stays (stays_pop s)) fun v s _ => ?_
      dsimp only
      split
      · exact leads_bind (calm_jump s offset) fun _ s _ => leads_pure _ s
      · exact leads_pure _ s
    case call | ret | spawn | tryBegin => nomatch hop
    all_goals exact absurd rfl hcontrol

end Exec

end TaskVm
