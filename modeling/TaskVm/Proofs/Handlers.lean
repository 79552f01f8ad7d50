import TaskVm.Proofs.Deeds

/-!
# Handlers and activations

A handler names a number of frames and a place in code. Both would be worth little if the
frame at that depth could be another one than the frame that registered the handler, and no
code is checked before it runs. What makes handlers safe is that a frame that is left takes
its handlers along, and that a throw goes back to the innermost handler, below which nothing
has been left.

Activations of a task are numbered when they begin, and a handler carries the number of the
one that registers it. Handlers have numbers of their own. The machine never looks at these
numbers. They are what "the same frame" and "the same handler" mean here.
-/

namespace TaskVm

open Exec Relation

namespace Task

/-- The activations of a task, outermost first, with the code each runs. -/
def calls (t : Task) : List (Nat × ChunkId) := t.frames.reverse.map fun f => (f.activation, f.chunk)

/-- A handler is that of the activation at its depth, and goes on within its code. -/
structure Registers (h : Heap) (t : Task) (hd : Handler) : Prop where
  depth : 1 ≤ hd.frameDepth ∧ hd.frameDepth ≤ t.frames.length
  owner : ∃ f, t.frames.reverse[hd.frameDepth - 1]? = some f ∧ f.activation = hd.activation ∧
    hd.target ≤ (f.code h).size

/-- Outer handlers have been registered before inner ones, so no two have the same number. -/
structure Counted (t : Task) : Prop where
  begun : ∀ hd ∈ t.handlers, hd.registration < t.registrations
  apart : t.handlers.Pairwise fun inner outer => outer.registration < inner.registration

/-- Frames are within their code and handlers with their frames. -/
structure Upright (h : Heap) (t : Task) : Prop where
  within : ∀ f ∈ t.frames, f.ip ≤ (f.code h).size
  begun : ∀ f ∈ t.frames, f.activation < t.activations
  /-- Outer activations have begun before inner ones, so no two have the same number. -/
  apart : t.frames.Pairwise fun inner outer => outer.activation < inner.activation
  nested : t.handlers.Pairwise fun inner outer => outer.frameDepth ≤ inner.frameDepth
  registered : ∀ hd ∈ t.handlers, t.Registers h hd
  counted : t.Counted

/-- Two states of a task in which the same calls are going on. -/
structure SameCalls (t t' : Task) : Prop where
  frames : t'.frames = t.frames
  handlers : t'.handlers = t.handlers
  activations : t'.activations = t.activations
  registrations : t'.registrations = t.registrations

theorem SameCalls.refl (t : Task) : t.SameCalls t := ⟨rfl, rfl, rfl, rfl⟩

/-! ## What the running task does -/

variable {h h' : Heap} {t t' : Task}

theorem registers_iff {hd : Handler} : t.Registers h hd ↔ 1 ≤ hd.frameDepth ∧
    ∃ chunk, t.calls[hd.frameDepth - 1]? = some (hd.activation, chunk) ∧
      hd.target ≤ (h.chunk chunk).code.size := by
  unfold calls
  rw [List.getElem?_map]
  constructor
  · rintro ⟨⟨hpos, -⟩, f, hf, hact, htarget⟩
    exact ⟨hpos, f.chunk, by rw [hf, ← hact]; rfl, htarget⟩
  · rintro ⟨hpos, chunk, hcall, htarget⟩
    obtain ⟨f, hf, heq⟩ := Option.map_eq_some_iff.mp hcall
    injection heq with hact hchunk
    subst hchunk
    obtain ⟨hlt, -⟩ := List.getElem?_eq_some_iff.mp hf
    rw [List.length_reverse] at hlt
    exact ⟨⟨hpos, by omega⟩, f, hf, hact, htarget⟩

/-- Calls that have been added since do not matter to a handler. -/
theorem Registers.mono {hd : Handler} (hh : ∀ f : Frame, (f.code h).size ≤ (f.code h').size)
    (hcalls : t.calls <+: t'.calls) (hr : t.Registers h hd) : t'.Registers h' hd := by
  obtain ⟨hpos, chunk, hcall, htarget⟩ := registers_iff.mp hr
  obtain ⟨new, hnew⟩ := hcalls
  obtain ⟨hlt, -⟩ := List.getElem?_eq_some_iff.mp hcall
  refine registers_iff.mpr ⟨hpos, chunk, ?_, Nat.le_trans htarget (hh ⟨0, chunk, 0, 0, 0, 0, 0⟩)⟩
  rw [← hnew, List.getElem?_append_left hlt, hcall]

/-- Nor do calls that have been left, if there are as many left as it says. -/
theorem Registers.left {hd : Handler} {n : Nat} (hn : hd.frameDepth ≤ n)
    (hcalls : t'.calls = t.calls.take n) (hr : t.Registers h hd) : t'.Registers h hd := by
  obtain ⟨hpos, chunk, hcall, htarget⟩ := registers_iff.mp hr
  refine registers_iff.mpr ⟨hpos, chunk, ?_, htarget⟩
  rw [hcalls, List.getElem?_take_of_lt (by omega), hcall]

/-- Handlers that are dropped leave the others in order. -/
theorem Counted.sublist (hc : t.Counted) (hsub : t'.handlers.Sublist t.handlers)
    (hr : t'.registrations = t.registrations) : t'.Counted where
  begun hd hhd := hr ▸ hc.begun hd (hsub.subset hhd)
  apart := hc.apart.sublist hsub

theorem Counted.protect (hc : t.Counted) (f : Frame) (target : Nat) :
    (t.protect f target).Counted where
  begun hd hhd := by
    rcases List.mem_cons.mp hhd with rfl | hhd
    · exact Nat.lt_succ_self _
    · exact Nat.lt_succ_of_lt (hc.begun hd hhd)
  apart := List.pairwise_cons.mpr ⟨hc.begun, hc.apart⟩

theorem Upright.mono (hu : t.Upright h) (hh : ∀ f : Frame, (f.code h).size ≤ (f.code h').size)
    (hc : t.SameCalls t') : t'.Upright h' := by
  have hcalls : t'.calls = t.calls := by rw [calls, hc.frames, calls]
  refine ⟨?_, ?_, ?_, ?_, ?_, ?_⟩
  · rw [hc.frames]
    exact fun f hf => Nat.le_trans (hu.within f hf) (hh f)
  · rw [hc.frames, hc.activations]
    exact hu.begun
  · rw [hc.frames]
    exact hu.apart
  · rw [hc.handlers]
    exact hu.nested
  · rw [hc.handlers]
    exact fun hd hhd => (hu.registered hd hhd).mono hh (hcalls ▸ List.prefix_refl _)
  · exact hu.counted.sublist (hc.handlers ▸ List.Sublist.refl _) hc.registrations

theorem Upright.goto (hu : t.Upright h) {f : Frame} {fs : List Frame} (hf : t.frames = f :: fs)
    {ip : Nat} (hip : ip ≤ (f.code h).size) :
    { t with frames := { f with ip } :: fs }.Upright h := by
  have hcalls : { t with frames := { f with ip } :: fs }.calls = t.calls := by
    rw [calls, calls, hf]
    simp
  obtain ⟨hwithin, hbegun, hapart, hnested, hregistered, hcounted⟩ := hu
  rw [hf] at hwithin hbegun hapart
  refine ⟨?_, ?_, ?_, hnested, ?_, hcounted.sublist (List.Sublist.refl _) rfl⟩
  · intro g hg
    rcases List.mem_cons.mp hg with rfl | hg
    · exact hip
    · exact hwithin g (List.mem_cons_of_mem f hg)
  · intro g hg
    rcases List.mem_cons.mp hg with rfl | hg
    · exact hbegun f List.mem_cons_self
    · exact hbegun g (List.mem_cons_of_mem f hg)
  · exact List.pairwise_cons.mpr (List.pairwise_cons.mp hapart)
  · exact fun hd hhd => (hregistered hd hhd).mono (fun _ => Nat.le_refl _)
      (hcalls ▸ List.prefix_refl _)

theorem Upright.protect (hu : t.Upright h) {f : Frame} {fs : List Frame}
    (hf : t.frames = f :: fs) {target : Nat} (ht : target ≤ (f.code h).size) :
    (t.protect f target).Upright h := by
  refine ⟨hu.within, hu.begun, hu.apart, ?_, ?_, hu.counted.protect f target⟩
  · exact List.pairwise_cons.mpr ⟨fun hd hhd => (hu.registered hd hhd).depth.2, hu.nested⟩
  · intro hd hhd
    rcases List.mem_cons.mp hhd with rfl | hhd
    · refine ⟨⟨?_, Nat.le_refl _⟩, f, ?_, rfl, ht⟩
      · rw [hf]
        exact Nat.succ_pos _
      · simp [Task.protect, hf]
    · obtain ⟨hdepth, howner⟩ := hu.registered hd hhd
      exact ⟨hdepth, howner⟩

theorem Upright.unprotect (hu : t.Upright h) {hd : Handler} {rest : List Handler}
    (hh : t.handlers = hd :: rest) : { t with handlers := rest }.Upright h := by
  refine ⟨hu.within, hu.begun, hu.apart, (List.pairwise_cons.mp (hh ▸ hu.nested)).2, ?_,
    hu.counted.sublist (hh ▸ List.sublist_cons_self hd rest) rfl⟩
  intro hd' hhd
  obtain ⟨hdepth, howner⟩ := hu.registered hd' (hh ▸ List.mem_cons_of_mem hd hhd)
  exact ⟨hdepth, howner⟩

theorem Upright.enter (hu : t.Upright h) {f : Frame} (hip : f.ip = 0) (locals : Array Value) :
    (t.enter f locals).Upright h := by
  have hcalls : (t.enter f locals).calls = t.calls ++ [(t.activations, f.chunk)] := by
    simp [calls, Task.enter]
  refine ⟨?_, ?_, ?_, hu.nested, ?_, hu.counted.sublist (List.Sublist.refl _) rfl⟩
  · intro g hg
    rcases List.mem_cons.mp hg with rfl | hg
    · show f.ip ≤ _
      rw [hip]
      exact Nat.zero_le _
    · exact hu.within g hg
  · intro g hg
    rcases List.mem_cons.mp hg with rfl | hg
    · exact Nat.lt_succ_self _
    · exact Nat.lt_succ_of_lt (hu.begun g hg)
  · exact List.pairwise_cons.mpr ⟨hu.begun, hu.apart⟩
  · exact fun hd hhd => (hu.registered hd hhd).mono (fun _ => Nat.le_refl _)
      (hcalls ▸ List.prefix_append _ _)

/-- Handlers are dropped from the innermost one as far as it is necessary, and then there are
no more of the kind. -/
theorem mem_dropWhile_depth {n : Nat} : ∀ {hds : List Handler},
    (hds.Pairwise fun inner outer => outer.frameDepth ≤ inner.frameDepth) →
    ∀ hd ∈ hds.dropWhile (fun hd => n < hd.frameDepth), hd.frameDepth ≤ n
  | [], _, hd, hhd => by cases hhd
  | inner :: outer, hp, hd, hhd => by
    obtain ⟨hinner, houter⟩ := List.pairwise_cons.mp hp
    rw [List.dropWhile_cons] at hhd
    split at hhd
    · exact mem_dropWhile_depth houter hd hhd
    · rename_i hle
      have hle : inner.frameDepth ≤ n := by simpa using hle
      rcases List.mem_cons.mp hhd with rfl | hhd
      · exact hle
      · exact Nat.le_trans (hinner hd hhd) hle

theorem calls_cons {f : Frame} {fs : List Frame} (hf : t.frames = f :: fs) :
    t.calls = { t with frames := fs }.calls ++ [(f.activation, f.chunk)] := by
  simp [calls, hf]

/-- A frame that is left takes its handlers along. -/
theorem Upright.leave (hu : t.Upright h) {f : Frame} {callers : List Frame}
    (hf : t.frames = f :: callers) (hframes : t'.frames = callers)
    (hhandlers : t'.handlers = t.handlers.dropWhile fun hd => callers.length < hd.frameDepth)
    (hactivations : t'.activations = t.activations)
    (hregistrations : t'.registrations = t.registrations) : t'.Upright h := by
  -- Calls are listed from the outermost, so that what stays is a prefix.
  have hcalls : t'.calls = t.calls.take callers.length := by
    rw [calls_cons hf]
    simp [calls, hframes]
  obtain ⟨hwithin, hbegun, hapart, hnested, hregistered, hcounted⟩ := hu
  have hsub := List.dropWhile_sublist (l := t.handlers) fun hd => callers.length < hd.frameDepth
  rw [hf] at hwithin hbegun hapart
  refine ⟨?_, ?_, ?_, ?_, ?_, hcounted.sublist (hhandlers ▸ hsub) hregistrations⟩
  · rw [hframes]
    exact fun g hg => hwithin g (List.mem_cons_of_mem f hg)
  · rw [hframes, hactivations]
    exact fun g hg => hbegun g (List.mem_cons_of_mem f hg)
  · rw [hframes]
    exact (List.pairwise_cons.mp hapart).2
  · rw [hhandlers]
    exact hnested.sublist hsub
  · rw [hhandlers]
    intro hd hhd
    exact (hregistered hd (hsub.subset hhd)).left (mem_dropWhile_depth hnested hd hhd) hcalls

/-- The frame that a throw goes back to is the one that registered the innermost handler. -/
theorem Upright.caught (hu : t.Upright h) {hd : Handler} {rest : List Handler}
    (hh : t.handlers = hd :: rest) : ∃ f callers,
      t.frames.drop (t.frames.length - hd.frameDepth) = f :: callers ∧
        f.activation = hd.activation ∧ hd.target ≤ (f.code h).size := by
  obtain ⟨⟨hpos, hle⟩, f, hf, hact, htarget⟩ := hu.registered hd (hh ▸ List.mem_cons_self)
  have hlt : t.frames.length - hd.frameDepth < t.frames.length := by omega
  have hindex : t.frames.length - 1 - (hd.frameDepth - 1) = t.frames.length - hd.frameDepth := by
    omega
  rw [List.getElem?_reverse (by omega), hindex, List.getElem?_eq_getElem hlt] at hf
  refine ⟨f, t.frames.drop (t.frames.length - hd.frameDepth + 1), ?_, hact, htarget⟩
  rw [List.drop_eq_getElem_cons hlt, Option.some.inj hf]

theorem Upright.unwind (hu : t.Upright h) {hd : Handler} {rest : List Handler}
    (hh : t.handlers = hd :: rest) {f : Frame} {callers : List Frame}
    (hf : t.frames.drop (t.frames.length - hd.frameDepth) = f :: callers)
    (hframes : t'.frames = { f with ip := hd.target } :: callers)
    (hhandlers : t'.handlers = t.handlers) (hactivations : t'.activations = t.activations)
    (hregistrations : t'.registrations = t.registrations) : t'.Upright h := by
  obtain ⟨f', callers', hf', -, htarget⟩ := hu.caught hh
  rw [hf] at hf'
  injection hf' with hsame _
  subst hsame
  -- First the frames are dropped, and then the innermost one that is left goes on elsewhere.
  have hdropped : { t' with frames := f :: callers }.Upright h := by
    obtain ⟨hwithin, hbegun, hapart, hnested, hregistered, hcounted⟩ := hu
    have hsub : (f :: callers).Sublist t.frames := hf ▸ List.drop_sublist _ _
    have hle : hd.frameDepth ≤ t.frames.length := (hregistered hd (hh ▸ List.mem_cons_self)).depth.2
    have hcalls : { t' with frames := f :: callers }.calls = t.calls.take hd.frameDepth := by
      unfold calls
      dsimp only
      rw [← hf, List.reverse_drop, List.map_take]
      congr 1
      omega
    refine ⟨?_, ?_, hapart.sublist hsub, ?_, ?_,
      hcounted.sublist (hhandlers ▸ List.Sublist.refl _) hregistrations⟩
    · exact fun g hg => hwithin g (hsub.subset hg)
    · exact fun g hg => hactivations ▸ hbegun g (hsub.subset hg)
    · exact hhandlers ▸ hnested
    · intro hd' hhd'
      have hhd' : hd' ∈ t.handlers := hhandlers ▸ hhd'
      refine (hregistered hd' hhd').left ?_ hcalls
      rw [hh] at hhd' hnested
      rcases List.mem_cons.mp hhd' with rfl | hmem
      · exact Nat.le_refl _
      · exact (List.pairwise_cons.mp hnested).1 hd' hmem
  have hgone := hdropped.goto rfl htarget
  exact hgone.mono (fun _ => Nat.le_refl _) ⟨hframes, rfl, rfl, rfl⟩

/-- A task that is about to have its first turn. -/
theorem Newborn.upright (hn : t.Newborn) (h : Heap) : t.Upright h := by
  obtain ⟨f, hf, -, hip, hact⟩ := hn.frames
  refine ⟨?_, ?_, ?_, ?_, ?_, ?_, ?_⟩
  · intro g hg
    rw [hf, List.mem_singleton] at hg
    rw [hg, hip]
    exact Nat.zero_le _
  · intro g hg
    rw [hf, List.mem_singleton] at hg
    rw [hg, hact, hn.activations]
    exact Nat.zero_lt_one
  · rw [hf]
    exact List.pairwise_singleton _ _
  · rw [hn.handlers]
    exact List.Pairwise.nil
  · rw [hn.handlers]
    intro hd hhd
    cases hhd
  · rw [hn.handlers]
    intro hd hhd
    cases hhd
  · rw [hn.handlers]
    exact List.Pairwise.nil

end Task

/-! ## What a turn does -/

/-- Code is never changed, only added. -/
theorem Heap.Extends.code_le {h h' : Heap} (he : h.Extends h') (f : Frame) :
    (f.code h).size ≤ (f.code h').size := by
  unfold Frame.code
  by_cases hlt : f.chunk < h.chunks.size
  · exact Nat.le_of_eq (congrArg Array.size (he.code.2 f.chunk hlt).1.symm)
  · have hnone : h.chunk f.chunk = {} := by
      rw [Heap.chunk, Array.getD_eq_getD_getElem?, Array.getElem?_eq_none (Nat.le_of_not_lt hlt)]
      rfl
    rw [hnone]
    exact Nat.zero_le _

/-- A task that is woken is the same but for what it is to find. -/
theorem Scheduler.get?_wake {s : Scheduler} {h : Heap} {w : Waiter} {r : Resume} {id : TaskId}
    {t' : Task} (ht : (s.wake h w r).2.1.get? id = some t') :
    ∃ k t, s.get? k = some t ∧ ∃ resume waitEpoch, t' = { t with resume, waitEpoch } := by
  unfold Scheduler.wake at ht
  split at ht
  · rename_i t hlive hheld
    have hput := (s.get?_put_eq { t with resume := some r, waitEpoch := t.waitEpoch + 1 } id).symm
      |>.trans ht
    split at hput
    · exact ⟨w.task, t, hheld, _, _, (Option.some.inj hput).symm⟩
    · exact ⟨id, t', hput, _, _, rfl⟩
  · exact ⟨id, t', ht, _, _, rfl⟩

/-- Code is there as before, and so are the calls of tasks that are not having their turn. -/
structure Turn.Inherits (s s' : Turn) : Prop where
  code : ∀ f : Frame, (f.code s.heap).size ≤ (f.code s'.heap).size
  held : ∀ id t', s'.vm.scheduler.get? id = some t' →
    t'.Newborn ∨ ∃ k t, s.vm.scheduler.get? k = some t ∧ t.SameCalls t'

/-- Nothing has happened to other tasks, nor to code. -/
theorem Turn.Inherits.of_eq {s s' : Turn} (hc : s'.heap.chunks = s.heap.chunks)
    (hs : s'.vm.scheduler.tasks = s.vm.scheduler.tasks) : s.Inherits s' where
  code f := Nat.le_of_eq (by rw [Frame.code, Frame.code, Heap.chunk, Heap.chunk, hc])
  held id t' ht := by
    unfold Scheduler.get? at ht
    rw [hs] at ht
    exact .inr ⟨id, t', ht, .refl t'⟩

theorem ChangeIn.inherits {s s' : Turn} (h : Change s s') : s.Inherits s' := by
  have hsame : ∀ id t', s.vm.scheduler.get? id = some t' →
      t'.Newborn ∨ ∃ k t, s.vm.scheduler.get? k = some t ∧ t.SameCalls t' :=
    fun id t' ht => .inr ⟨id, t', ht, .refl t'⟩
  cases h with
  | heap hh => exact ⟨hh.code_le, hsame⟩
  | remember => exact ⟨(Heap.Extends.rememberSlot _ _ _ _ _).code_le, hsame⟩
  | vm hv => exact .of_eq rfl (congrArg Scheduler.tasks hv.alike.scheduler)
  | @writeCell cell hc v =>
    cases hcell : s.heap.cell cell with
    | closed w =>
      rw [writeCell_closed hcell]
      exact .of_eq rfl rfl
    | onStack task slot =>
      rw [writeCell_onStack hcell, setSlotOf]
      dsimp only
      split
      · exact .of_eq rfl rfl
      · split
        -- A cell may be on the stack of another task, whose calls that does not touch.
        · rename_i t ht
          refine ⟨fun _ => Nat.le_refl _, fun id t' ht' => ?_⟩
          have hput := (s.vm.scheduler.get?_put_eq
            { t with stack := t.stack.setIfInBounds slot v } id).symm.trans ht'
          split at hput
          · exact .inr ⟨task, t, ht, by rw [← Option.some.inj hput]; exact ⟨rfl, rfl, rfl, rfl⟩⟩
          · exact hsame id t' hput
        · exact .of_eq rfl rfl
  | @capture f fs hf slot =>
    refine .of_eq ?_ rfl
    rw [endState_ok (captureSlot_apply s (f.stackBase + slot)), OpenUpvalues.capture_frame]
  | @leave f callers hf =>
    refine .of_eq ?_ rfl
    rw [dropFrame_heap]
  | @spawn child hc name hid hh h he =>
    refine ⟨fun f => ?_, fun id t' ht' => ?_⟩
    · exact he.code_le f
    · have hput := (s.vm.scheduler.takeId.2.get?_put_eq child id).symm.trans ht'
      split at hput
      · exact .inl (Option.some.inj hput ▸ hc)
      · exact hsame id t' hput
  | _ => exact .of_eq rfl rfl

theorem DeedIn.inherits {s s' : Turn} (h : Deed s s') : s.Inherits s' := by
  cases h with
  | change h => exact h.inherits
  | wake w r =>
    refine ⟨fun f => ?_, fun id t' ht' => ?_⟩
    · rw [endState_ok (wake_apply s w r)]
      dsimp only
      rw [Machine.wake_frame]
      exact Nat.le_refl _
    · obtain ⟨k, t, ht, resume, waitEpoch, rfl⟩ := Scheduler.get?_wake ht'
      exact .inr ⟨k, t, ht, rfl, rfl, rfl, rfl⟩
  | unwind hh v =>
    obtain ⟨acts, events, cells, frames, openUpvalues, iterations, stack, hs⟩ :=
      Turn.unwind_frame hh v
    rw [hs]
    exact .of_eq rfl rfl
  | _ => exact .of_eq rfl rfl

/-- All tasks of a turn are upright. -/
structure Turn.Upright (s : Turn) : Prop where
  running : s.task.Upright s.heap
  held : ∀ id t, s.vm.scheduler.get? id = some t → t.Upright s.heap

theorem ChangeIn.upright {s s' : Turn} (h : Change s s') (hu : s.task.Upright s.heap) :
    s'.task.Upright s'.heap := by
  have hcode := h.inherits.code
  have hsame : ∀ {t : Task}, s.task.SameCalls t → t.Upright s'.heap := hu.mono hcode
  cases h with
  | @writeCell cell hc v =>
    obtain ⟨cells, tasks, stack, touched, hs⟩ := writeCell_frame s cell v
    rw [hs] at hsame ⊢
    exact hsame ⟨rfl, rfl, rfl, rfl⟩
  | goto hf hip => exact hu.goto hf hip
  | protect hf ht => exact hu.protect hf ht
  | unprotect hh | catchInto hh => exact hu.unprotect hh
  | enter hip => exact hu.enter hip _
  | @leave f callers hf =>
    have hleft : (endState (dropFrame f callers) s).task.Upright s.heap :=
      hu.leave hf rfl rfl rfl rfl
    exact hleft.mono hcode (.refl _)
  | _ => exact hsame ⟨rfl, rfl, rfl, rfl⟩

/-- A caught throw goes on in the activation that registered the innermost handler. -/
theorem Turn.unwind_resumes {s : Turn} (hu : s.task.Upright s.heap) {hd : Handler}
    {rest : List Handler} (hh : s.task.handlers = hd :: rest) (v : Value) :
    (s.unwind v).1 = none ∧ ∃ f callers,
      s.task.frames.drop (s.task.frames.length - hd.frameDepth) = f :: callers ∧
      f.activation = hd.activation ∧
      (s.unwind v).2.task.frames = { f with ip := hd.target } :: callers := by
  obtain ⟨f, callers, hf, hact, -⟩ := hu.caught hh
  refine ⟨?_, f, callers, hf, hact, ?_⟩
  · unfold unwind Task.truncateIterations
    rw [hh]
    dsimp only
    rw [hf]
  · unfold unwind Task.truncateIterations
    rw [hh]
    dsimp only
    rw [hf]

theorem Turn.unwind_handlers (s : Turn) (v : Value) :
    (s.unwind v).2.task.handlers = s.task.handlers ∧
      (s.unwind v).2.task.activations = s.task.activations ∧
      (s.unwind v).2.task.registrations = s.task.registrations := by
  cases hh : s.task.handlers with
  | nil =>
    unfold unwind
    rw [hh]
    exact ⟨hh, rfl, rfl⟩
  | cons hd rest =>
    obtain ⟨acts, events, cells, frames, openUpvalues, iterations, stack, hs⟩ :=
      Turn.unwind_frame hh v
    rw [hs]
    exact ⟨hh, rfl, rfl⟩

theorem DeedIn.upright {s s' : Turn} (h : Deed s s') (hu : s.Upright) : s'.Upright := by
  have hin := h.inherits
  refine ⟨?_, fun id t' ht' => ?_⟩
  · cases h with
    | change h => exact h.upright hu.running
    | unwind hh v =>
      obtain ⟨-, f, callers, hf, -, hframes⟩ := Turn.unwind_resumes hu.running hh v
      obtain ⟨hhandlers, hactivations, hregistrations⟩ := s.unwind_handlers v
      exact (hu.running.unwind hh hf hframes hhandlers hactivations hregistrations).mono
        hin.code (.refl _)
    | _ => exact hu.running.mono hin.code ⟨rfl, rfl, rfl, rfl⟩
  · rcases hin.held id t' ht' with hnew | ⟨k, t, ht, hsame⟩
    · exact hnew.upright _
    · exact (hu.held k t ht).mono hin.code hsame

theorem upright_of_deeds {s s' : Turn} (h : Deeds s s') (hu : s.Upright) : s'.Upright := by
  induction h with
  | refl => exact hu
  | tail _ hd ih => exact hd.upright ih

/-! ## What a turn throws -/

namespace Turn

/-- What is left to do of the next thing the running task does, and where it starts from. -/
def action (s : Turn) : Option (Turn × Exec Flow) :=
  match s.task.resume with
  | some r =>
    let acts := s.acts ++ [.resumed s.task.id r]
    some ({ s with acts, task := { s.task with resume := none } }, resumeWith r)
  | none =>
    match s.task.frames with
    | [] => none
    | f :: _ =>
      if (f.code s.heap).size ≤ f.ip then some (s, leaveFrame .nil) else some (s, step)

section

variable {s s' : Turn} {x : Exec Flow} {r : Resume} {f : Frame} {fs : List Frame}

theorem action_resume (hr : s.task.resume = some r) :
    s.action = some ({ s with
      acts := s.acts ++ [.resumed s.task.id r]
      task := { s.task with resume := none } }, resumeWith r) := by
  unfold action
  rw [hr]

theorem action_nil (hr : s.task.resume = none) (hf : s.task.frames = []) : s.action = none := by
  unfold action
  rw [hr]
  dsimp only
  rw [hf]

theorem action_end (hr : s.task.resume = none) (hf : s.task.frames = f :: fs)
    (hend : (f.code s.heap).size ≤ f.ip) : s.action = some (s, leaveFrame .nil) := by
  unfold action
  rw [hr]
  dsimp only
  rw [hf]
  exact if_pos hend

theorem action_step (hr : s.task.resume = none) (hf : s.task.frames = f :: fs)
    (hlt : f.ip < (f.code s.heap).size) : s.action = some (s, step) := by
  unfold action
  rw [hr]
  dsimp only
  rw [hf]
  exact if_neg (Nat.not_le_of_lt hlt)

/-- A task picks up what its wait has come to, leaves a frame at the end of its code, or goes on to
the next instruction. -/
theorem action_cases (h : s.action = some (s', x)) :
    (∃ r, s.task.resume = some r ∧ x = resumeWith r ∧ s' = { s with
      acts := s.acts ++ [.resumed s.task.id r]
      task := { s.task with resume := none } }) ∨
    s' = s ∧ s.task.resume = none ∧ ∃ f fs, s.task.frames = f :: fs ∧
      ((f.code s.heap).size ≤ f.ip ∧ x = leaveFrame .nil ∨
        f.ip < (f.code s.heap).size ∧ x = step) := by
  cases hr : s.task.resume with
  | some r =>
    rw [action_resume hr] at h
    obtain ⟨rfl, rfl⟩ := Prod.mk.inj (Option.some.inj h)
    exact .inl ⟨r, rfl, rfl, rfl⟩
  | none =>
    cases hf : s.task.frames with
    | nil =>
      rw [action_nil hr hf] at h
      cases h
    | cons f fs =>
      rcases Nat.lt_or_ge f.ip (f.code s.heap).size with hlt | hend
      · rw [action_step hr hf hlt] at h
        obtain ⟨rfl, rfl⟩ := Prod.mk.inj (Option.some.inj h)
        exact .inr ⟨rfl, rfl, f, fs, rfl, .inr ⟨hlt, rfl⟩⟩
      · rw [action_end hr hf hend] at h
        obtain ⟨rfl, rfl⟩ := Prod.mk.inj (Option.some.inj h)
        exact .inr ⟨rfl, rfl, f, fs, rfl, .inl ⟨hend, rfl⟩⟩

/-- The turn goes on with what is left to do, and a task that has nothing left is done. -/
theorem advance_eq (s : Turn) : s.advance =
    s.action.elim (some (.completed .nil), s) fun a => a.1.perform a.2 := by
  unfold advance action
  cases s.task.resume with
  | some r => rfl
  | none =>
    cases s.task.frames with
    | nil => rfl
    | cons f fs =>
      dsimp only
      split <;> rfl

theorem advance_action (h : s.action = some (s', x)) : s.advance = s'.perform x := by
  rw [advance_eq, h]
  rfl

theorem advance_done (h : s.action = none) : s.advance = (some (.completed .nil), s) := by
  rw [advance_eq, h]
  rfl

theorem deeds_action (h : s.action = some (s', x)) (ht : ∀ f ∈ s.hosts, f.Tame) :
    Deeds s s' ∧ Leads Deeds x s' := by
  obtain ⟨r, hr, rfl, rfl⟩ | ⟨rfl, -, -, -, -, ⟨-, rfl⟩ | ⟨-, rfl⟩⟩ := action_cases h
  · exact ⟨(DeedIn.resume hr).deeds, deeds_resumeWith r _⟩
  · exact ⟨.refl, (leads_leaveFrame s' .nil).deeds⟩
  · exact ⟨.refl, deeds_step ht⟩

end

/-- The value that a computation throws, and the state it throws it in. -/
def throws? (s : Turn) (x : Exec Flow) : Option (Value × Turn) :=
  match x s with
  | .ok (.thrown v) s => some (v, s)
  | .error (.raised e) s =>
    if e.isFatal then none
    else some (.error e, { s with events := s.events ++ [.raised s.task.id e] })
  | _ => none

/-- The value that the running task throws next, and the state it throws it in. -/
def thrown? (s : Turn) : Option (Value × Turn) := s.action.bind fun a => a.1.throws? a.2

variable {s s' : Turn} {v : Value} {x : Exec Flow}

theorem perform_throws (h : s.throws? x = some (v, s')) :
    s.perform x = s'.unwind v := by
  unfold throws? at h
  unfold perform
  split at h
  · rename_i w s₁ hx
    obtain ⟨rfl, rfl⟩ := Prod.mk.inj (Option.some.inj h)
    rw [hx]
    rfl
  · rename_i e s₁ hx
    split at h
    · cases h
    · rename_i hfatal
      obtain ⟨rfl, rfl⟩ := Prod.mk.inj (Option.some.inj h)
      rw [hx]
      show s₁.recover (.raised e) = _
      rw [recover, if_neg hfatal]
  · cases h

/-- What is thrown is unwound, in the same tick. -/
theorem advance_thrown (h : s.thrown? = some (v, s')) : s.advance = s'.unwind v := by
  obtain ⟨⟨s₁, x⟩, hact, hthrows⟩ := Option.bind_eq_some_iff.mp h
  rw [advance_action hact]
  exact perform_throws hthrows

theorem deeds_throws (hx : Leads Deeds x s) (h : s.throws? x = some (v, s')) :
    Deeds s s' := by
  unfold throws? at h
  split at h
  · rename_i w s₁ hok
    obtain ⟨-, rfl⟩ := Prod.mk.inj (Option.some.inj h)
    exact hx.of_ok hok
  · rename_i e s₁ herr
    rw [Leads, endState_error herr] at hx
    split at h
    · cases h
    · obtain ⟨-, rfl⟩ := Prod.mk.inj (Option.some.inj h)
      exact hx.tail (.change (.tell _))
  · cases h

theorem deeds_thrown (ht : ∀ f ∈ s.hosts, f.Tame) (h : s.thrown? = some (v, s')) :
    Deeds s s' := by
  obtain ⟨⟨s₁, x⟩, hact, hthrows⟩ := Option.bind_eq_some_iff.mp h
  obtain ⟨hs, hx⟩ := deeds_action hact ht
  exact hs.trans (deeds_throws hx hthrows)

/-- Where there is code there is a byte to be fetched. -/
theorem fetch_finds {f : Frame} {fs : List Frame} (hf : s.task.frames = f :: fs)
    (hip : f.ip < (f.code s.heap).size) (ip : Nat) :
    fetch s ≠ .error (.raised (.invalidBytecode ip "instruction pointer past end of code")) s' := by
  intro herr
  have hframe : frame s = .ok f s := by
    show Exec.ofExcept s.task.frame s = _
    rw [Task.frame, hf]
    rfl
  rw [fetch, bind_ok hframe, get_bind_apply, Array.getElem?_eq_getElem hip] at herr
  cases hop : Opcode.ofByte? (f.code s.heap)[f.ip] with
  | none =>
    simp only [hop] at herr
    injection herr with herr _
    injection herr with herr
    injection herr with _ herr
    exact absurd herr (by decide)
  | some op =>
    simp only [hop] at herr
    cases herr

end Turn

/-! ## Runs -/

namespace Machine

variable {ok : Machine → Prop} {m m' m₀ : Machine}

/-- A task that is there, whether it has the turn or not. -/
def HasTask (m : Machine) (t : Task) : Prop :=
  m.running = some t ∨ ∃ id, m.vm.scheduler.get? id = some t

/-- The table of tasks, by number. -/
theorem held_task (h : m.crew.Tended) {id : TaskId} {t : Task}
    (ht : m.vm.scheduler.get? id = some t) : t.id = id := by
  refine h.keyed id t.badge ?_
  rw [held_eq, ht]
  rfl

/-- All tasks are upright. -/
def Upright (m : Machine) : Prop := ∀ t, m.HasTask t → t.Upright m.heap

theorem Upright.turn (hu : m.Upright) {task : Task} (hr : m.running = some task) :
    (m.turn task).Upright :=
  ⟨hu task (.inl hr), fun id t ht => hu t (.inr ⟨id, ht⟩)⟩

/-- Code is there as before, and so are the calls of tasks that were there before. -/
structure Inherits (m m' : Machine) : Prop where
  code : ∀ f : Frame, (f.code m.heap).size ≤ (f.code m'.heap).size
  tasks : ∀ t', m'.HasTask t' → t'.Newborn ∨ ∃ t, m.HasTask t ∧ t.SameCalls t'

theorem Inherits.upright (h : m.Inherits m') (hm : m.Upright) : m'.Upright := by
  intro t' ht'
  rcases h.tasks t' ht' with hnew | ⟨t, ht, hsame⟩
  · exact hnew.upright _
  · exact (hm t ht).mono h.code hsame

/-- Nothing has happened to code, and no task is there that was not there before. -/
theorem Inherits.of_tasks (hc : m'.heap.chunks = m.heap.chunks)
    (ht : ∀ t, m'.HasTask t → m.HasTask t) : m.Inherits m' where
  code f := Nat.le_of_eq (by rw [Frame.code, Frame.code, Heap.chunk, Heap.chunk, hc])
  tasks t h := .inr ⟨t, ht t h, .refl t⟩

/-- Who is given up is there no longer. -/
theorem shutdown_hasTask {t : Task} (h : m.shutdown.HasTask t) : m.running = some t := by
  rcases h with hr | ⟨id, hid⟩
  · exact hr
  · have hempty : m.shutdown.vm.scheduler.get? id = none := Std.ExtTreeMap.getElem?_empty
    rw [hempty] at hid
    cases hid

/-- Whose turn it is was there before. -/
theorem dispatch_hasTask (h : m.crew.Tended) {t : Task} (ht : m.dispatch.machine.HasTask t) :
    m.HasTask t := by
  cases hq : m.vm.scheduler.queue with
  | nil =>
    rw [dispatch_idle hq] at ht
    exact .inl (shutdown_hasTask ht)
  | cons id queue =>
    obtain ⟨t', ht', -, hnext⟩ := takeNext_eq h hq
    rw [dispatch, hnext] at ht
    rcases ht with hr | ⟨k, hk⟩
    · exact .inr ⟨id, Option.some.inj hr ▸ ht'⟩
    · have herase := (m.vm.scheduler.get?_erase t'.id k).symm.trans hk
      split at herase
      · cases herase
      · exact .inr ⟨k, herase⟩

end Machine

namespace Turn

variable {s : Turn} {o : TurnEnd} {m : Machine} {outcome : Option Outcome} {t : Task}

theorem keep_hasTask {st : TaskStatus} {queue : List TaskId} (h : (s.keep st queue).HasTask t) :
    t = s.task ∨ ∃ k, s.vm.scheduler.get? k = some t := by
  rcases h with hr | ⟨k, hk⟩
  · cases hr
  · have hput := (s.vm.scheduler.get?_put_eq s.task k).symm.trans hk
    split at hput
    · exact .inl (Option.some.inj hput).symm
    · exact .inr ⟨k, hput⟩

theorem retire_hasTask {st : TaskStatus} (h : (s.retire st).HasTask t) :
    ∃ k, s.vm.scheduler.get? k = some t := by
  rcases h with hr | hheld
  · cases hr
  · exact hheld

/-- After a turn those are there who were held, and its own task if that is to have another. -/
theorem Over.held (h : s.Over o m outcome) (ht : m.HasTask t) :
    t = s.task ∧ (o = .yielded ∨ o = .blocked) ∨ ∃ k, s.vm.scheduler.get? k = some t := by
  cases h with
  | yields => exact (keep_hasTask ht).imp_left fun h => ⟨h, .inl rfl⟩
  | blocks => exact (keep_hasTask ht).imp_left fun h => ⟨h, .inr rfl⟩
  | retires => exact .inr (retire_hasTask ht)
  | concludes => cases Machine.shutdown_hasTask ht
  | endless =>
    rcases ht with hr | hheld
    · cases hr
    · exact .inr hheld

/-- A turn that ends brings nobody. -/
theorem Over.hasTask (h : s.Over o m outcome) (ht : m.HasTask t) :
    (Machine.ofTurn s).HasTask t := by
  rcases h.held ht with ⟨rfl, -⟩ | hheld
  · exact .inl rfl
  · exact .inr hheld

theorem Over.inherits (h : s.Over o m outcome) : (Machine.ofTurn s).Inherits m :=
  .of_tasks h.resettles.chunks fun _ => h.hasTask

end Turn

namespace Machine

variable {ok : Machine → Prop} {m m' m₀ : Machine}

/-- Nor does a pause. -/
theorem pause_hasTask {t : Task} (ht : m.pause.1.HasTask t) : m.HasTask t := by
  cases hr : m.running with
  | none =>
    rwa [pause, hr] at ht
  | some task =>
    rw [pause_keep hr] at ht
    rcases Turn.keep_hasTask ht with rfl | hheld
    · exact .inl hr
    · exact .inr hheld

theorem dispatch_inherits (h : m.crew.Tended) : m.Inherits m.dispatch.machine :=
  .of_tasks m.dispatch_resettles.chunks fun _ => dispatch_hasTask h

theorem pause_inherits (m : Machine) : m.Inherits m.pause.1 :=
  .of_tasks m.pause_resettles.chunks fun _ => pause_hasTask

/-- The main task of a new program is about to have its first turn. -/
theorem load_newborn {chunk : ChunkId} {id : TaskId} {t : Task}
    (h : (m.load chunk).2.vm.scheduler.get? id = some t) : t.Newborn := by
  have hget : (({} : Std.ExtTreeMap TaskId Task).insert m.vm.scheduler.nextId _)[id]? = some t := h
  rw [getElem?_insert_ite] at hget
  split at hget
  · rw [← Option.some.inj hget]
    refine ⟨⟨_, rfl, ?_, rfl, rfl⟩, rfl, rfl, rfl, rfl, rfl⟩
    simp [Task.enter, Frame.enter]
  · rw [Std.ExtTreeMap.getElem?_empty] at hget
    cases hget

theorem load_inherits (hr : m.running = none) (chunk : ChunkId) :
    m.Inherits (m.load chunk).2 where
  code f := by
    have hchunks : (m.load chunk).2.heap.chunks = m.shutdown.heap.chunks := rfl
    exact Nat.le_of_eq
      (by rw [Frame.code, Frame.code, Heap.chunk, Heap.chunk, hchunks, shutdown_heap])
  tasks t ht := by
    rcases ht with hnone | ⟨id, hid⟩
    · exact absurd (hr.symm.trans hnone) (by simp)
    · exact .inl (load_newborn hid)

theorem tick_upright (h : m.Fit) (hu : m.Upright) : m.tick.machine.Upright := by
  refine tick_induct (fun _ => (dispatch_inherits h.tended).upright hu) ?_ ?_
  · intro task hr
    have hdone := upright_of_deeds (Turn.deeds_advance h.tame) (hu.turn hr)
    rintro t (ht | ⟨id, ht⟩)
    · exact Option.some.inj ht ▸ hdone.running
    · exact hdone.held id t ht
  · exact fun _ _ _ _ _ hover hs => hover.inherits.upright hs

theorem Move.upright {acts : List Act} (h : Move ok m acts m') (hm : m.Fit) (hu : m.Upright) :
    m'.Upright := by
  cases h with
  | tick => exact tick_upright hm hu
  | pause => exact m.pause_inherits.upright hu
  | load hr chunk => exact (load_inherits hr chunk).upright hu
  | prepare hh he hv hr =>
    refine Inherits.upright ⟨he.code_le, fun t ht => .inr ⟨t, ?_, .refl t⟩⟩ hu
    unfold HasTask at ht ⊢
    rwa [hr, hv.scheduler] at ht

/-- **Tasks are upright at any time of any run.** -/
theorem Run.upright {hist : List Act} (h : Run ok m₀ hist m) (hm : m₀.Fit) (hu : m₀.Upright) :
    m.Upright := by
  induction h with
  | refl => exact hu
  | tail hrun hmove ih => exact hmove.upright (hrun.fit hm) ih

theorem create_upright (hosts : Array HostFunction) (h : Heap) (id : VmId) (config : VmConfig)
    (dice : Dice) : (create hosts h id config dice).Upright := by
  rintro t (hr | ⟨k, hk⟩)
  · cases hr
  · have hempty : (create hosts h id config dice).vm.scheduler.get? k = none :=
      Std.ExtTreeMap.getElem?_empty
    rw [hempty] at hk
    cases hk

/-- **Handlers and instruction pointers stay valid**, whatever the code. Frames are within their
code. Handlers go from the innermost to the outermost, and each is there for the activation at
its depth, which is the one that registered it. So a throw that is caught goes on in the
activation that registered the innermost handler, and the code of a frame comes to its end
right behind its last byte. -/
theorem Run.handlers_valid {hosts : Array HostFunction} (ht : ∀ f ∈ hosts, f.Tame) {h : Heap}
    {id : VmId} {config : VmConfig} {dice : Dice} {hist : List Act}
    (hr : Run ok (create hosts h id config dice) hist m) :
    (∀ t, m.HasTask t →
      (∀ f ∈ t.frames, f.ip ≤ (f.code m.heap).size ∧ f.activation < t.activations) ∧
      (t.frames.Pairwise fun inner outer => outer.activation < inner.activation) ∧
      (t.handlers.Pairwise fun inner outer => outer.frameDepth ≤ inner.frameDepth) ∧
      ∀ hd ∈ t.handlers, 1 ≤ hd.frameDepth ∧ hd.frameDepth ≤ t.frames.length ∧
        ∃ f, t.frames.reverse[hd.frameDepth - 1]? = some f ∧ f.activation = hd.activation ∧
          hd.target ≤ (f.code m.heap).size) ∧
    ∀ task, m.running = some task →
      (∀ v s, (m.turn task).thrown? = some (v, s) →
        (m.turn task).advance = s.unwind v ∧
        ∀ hd rest, s.task.handlers = hd :: rest → (s.unwind v).1 = none ∧
          ∃ f callers, s.task.frames.drop (s.task.frames.length - hd.frameDepth) = f :: callers ∧
            f.activation = hd.activation ∧
            (s.unwind v).2.task.frames = { f with ip := hd.target } :: callers) ∧
      ∀ f fs, task.resume = none → task.frames = f :: fs →
        (f.ip = (f.code m.heap).size ∧
          (m.turn task).advance = (m.turn task).perform (leaveFrame .nil)) ∨
        (f.ip < (f.code m.heap).size ∧ (m.turn task).advance = (m.turn task).perform step ∧
          ∀ ip s, fetch (m.turn task) ≠
            .error (.raised (.invalidBytecode ip "instruction pointer past end of code")) s) := by
  have hfit := hr.fit (create_fit ht h id config dice)
  have hu := hr.upright (create_fit ht h id config dice) (create_upright hosts h id config dice)
  refine ⟨fun t htask => ?_, fun task htask => ⟨fun v s hthrown => ?_, fun f fs hnone hf => ?_⟩⟩
  · obtain ⟨hwithin, hbegun, hapart, hnested, hregistered⟩ := hu t htask
    refine ⟨fun f hf => ⟨hwithin f hf, hbegun f hf⟩, hapart, hnested, fun hd hhd => ?_⟩
    obtain ⟨hdepth, howner⟩ := hregistered hd hhd
    exact ⟨hdepth.1, hdepth.2, howner⟩
  · refine ⟨Turn.advance_thrown hthrown, fun hd rest hhandlers => ?_⟩
    have hs := upright_of_deeds (Turn.deeds_thrown hfit.tame hthrown) (hu.turn htask)
    exact Turn.unwind_resumes hs.running hhandlers v
  -- The pointer is within the code, so at the end of a frame's code it is right behind it.
  · have hturn : (m.turn task).advance =
        if (f.code m.heap).size ≤ f.ip then (m.turn task).perform (leaveFrame .nil)
        else (m.turn task).perform step := by
      have htask : (m.turn task).task = task := rfl
      rw [Turn.advance, htask, hnone]
      dsimp only
      rw [hf]
      rfl
    have hle := (hu task (.inl htask)).within f (hf ▸ List.mem_cons_self)
    by_cases hend : (f.code m.heap).size ≤ f.ip
    · exact .inl ⟨Nat.le_antisymm hle hend, by rw [hturn, if_pos hend]⟩
    · have hip : f.ip < (f.code m.heap).size := Nat.lt_of_not_le hend
      exact .inr ⟨hip, by rw [hturn, if_neg hend], fun ip s =>
        Turn.fetch_finds (s := m.turn task) hf hip ip⟩

/-- A function that throws is called where there is a handler. -/
def rescue : Heap where
  closures := #[{ template := 0 }]
  templates := #[{ name := "thrower", chunk := 1 }]
  chunks := #[
    { code := assemble [(.tryBegin, [0, 6]), (.constant, [0, 0]), (.call, [0]), (.tryEnd, []),
        (.ret, [])]
      constants := #[.closure 0] },
    { code := assemble [(.pushTrue, []), (.throwValue, [])] }]

/-- The function's own activation is left, and the one that called it goes on. -/
theorem rescue_resumes : ∃ hist m task v s hd callers, ∃ f : Frame,
    Run (fun _ => True) (create #[] rescue 0 {} {}) hist m ∧ m.running = some task ∧
    task.frames.length = 2 ∧ (m.turn task).thrown? = some (v, s) ∧ s.task.handlers = [hd] ∧
    (m.turn task).advance.1 = none ∧ f.activation = hd.activation ∧
    (m.turn task).advance.2.task.frames = { f with ip := hd.target } :: callers := by
  have hrun : ((tickFor (fun _ => true) 5 ((create #[] rescue 0 {} {}).load 0).2 []).any fun r =>
      r.2.running.any fun task => decide (task.frames.length = 2) &&
        (r.2.turn task).thrown?.any fun x => decide (x.2.task.handlers.length = 1)) = true := by
    decide +kernel
  obtain ⟨⟨hist, m⟩, hticks, hp⟩ := (Option.any_eq_true _ _).mp hrun
  obtain ⟨task, htask, hp⟩ := (Option.any_eq_true _ _).mp hp
  obtain ⟨hlength, hp⟩ := Bool.and_eq_true_iff.mp hp
  obtain ⟨⟨v, s⟩, hthrown, hp⟩ := (Option.any_eq_true _ _).mp hp
  obtain ⟨hd, hhandlers⟩ := List.length_eq_one_iff.mp (of_decide_eq_true hp)
  have hr := (run_of_tickFor (Run.refl.tail (.load rfl 0)) hticks).mono fun _ _ => trivial
  obtain ⟨hadvance, hcaught⟩ :=
    ((Run.handlers_valid (by simp) hr).2 task htask).1 v s hthrown
  obtain ⟨hgoes, f, callers, -, hactivation, hframes⟩ := hcaught hd [] hhandlers
  rw [← hadvance] at hgoes hframes
  exact ⟨hist, m, task, v, s, hd, callers, f, hr, htask, of_decide_eq_true hlength, hthrown,
    hhandlers, hgoes, hactivation, hframes⟩

end Machine

end TaskVm
