import TaskVm.Proofs.Pausing
import TaskVm.Proofs.Stirring
import TaskVm.Proofs.Variables

/-!
# Call stacks from events

A debugger is told of every call and of every return. From that alone it can tell which functions
a task is in the middle of, whatever happens between them: a call puts a name on top and tells how
many there are then, and a return takes the topmost name away.

Functions are found by number. A number that no function has is that of the next one to be made,
and then what it stands for changes. Programs have no such numbers, and runs in which a task has
one for an operand are left out.
-/

namespace TaskVm

open Exec Relation

/-! ## Replaying events -/

/-- The names of the functions that a task is in the middle of, after an event. There are none if
the event cannot be. -/
def Event.play (id : TaskId) (stack : List String) : Event → Option (List String)
  | .called task name depth =>
    if task = id then if depth = stack.length + 1 then some (name :: stack) else none
    else some stack
  | .returned task name _ =>
    if task = id then
      match stack with
      | top :: rest => if top = name then some rest else none
      | [] => none
    else some stack
  | .raised _ _ => some stack

/-- The task that an event is about. -/
def Event.task : Event → TaskId
  | .called task _ _ | .returned task _ _ | .raised task _ => task

/-- What a debugger has come to know. -/
inductive Notice where
  /-- A program has been loaded, with its main task. -/
  | loaded (main : TaskId)
  | told (e : Event)
deriving DecidableEq

/-- What a debugger is told as it runs a program. -/
def Call.notice? : Call → Option Notice
  | .told _ e => some (.told e)
  | .offered _ _ _ _ => none

namespace Notice

/-- A main task begins in the middle of its program, and has been in the middle of nothing. -/
def play (id : TaskId) (stack : List String) : Notice → Option (List String)
  | .loaded main => if main = id then if stack = [] then some ["<main>"] else none else some stack
  | .told e => e.play id stack

/-- The names of the functions that a task is in the middle of, after all that is known. -/
def replay (id : TaskId) (log : List Notice) : Option (List String) := log.foldlM (play id) []

end Notice

theorem Event.play_other {e : Event} {id : TaskId} (h : e.task ≠ id) (stack : List String) :
    e.play id stack = some stack := by
  cases e with
  | raised => rfl
  | called | returned => exact if_neg h

/-- Events of other tasks do not matter. -/
theorem Event.plays_other {id : TaskId} : ∀ {es : List Event} (_ : ∀ e ∈ es, e.task ≠ id)
    (stack : List String), es.foldlM (fun st e => Event.play id st e) stack = some stack
  | [], _, _ => rfl
  | e :: es, h, stack => by
    rw [List.foldlM_cons, e.play_other (h e List.mem_cons_self)]
    exact plays_other (fun e he => h e (List.mem_cons_of_mem _ he)) stack

/-- A call puts its function on top, and tells how many there are. -/
theorem Event.plays_called (id : TaskId) (name : String) (stack : List String) :
    [Event.called id name (stack.length + 1)].foldlM (fun st e => Event.play id st e) stack =
      some (name :: stack) := by
  rw [List.foldlM_cons, Event.play, if_pos rfl, if_pos rfl]
  rfl

/-- The innermost functions are left one after the other. -/
theorem Event.plays_returned (id : TaskId) (v : Value) : ∀ left rest : List String,
    (left.map fun name => Event.returned id name v).foldlM (fun st e => Event.play id st e)
      (left ++ rest) = some rest
  | [], _ => rfl
  | name :: left, rest => by
    rw [List.map_cons, List.foldlM_cons, List.cons_append, Event.play, if_pos rfl, if_pos rfl]
    exact plays_returned id v left rest

namespace Notice

variable {id : TaskId} {log : List Notice} {stack : List String}

theorem replay_append (id : TaskId) (log more : List Notice) : replay id (log ++ more) =
    (replay id log).bind fun stack => more.foldlM (play id) stack := List.foldlM_append

theorem replay_told (h : replay id log = some stack) (es : List Event) :
    replay id (log ++ es.map .told) = es.foldlM (fun st e => Event.play id st e) stack := by
  rw [replay_append, h, Option.bind_some, List.foldlM_map]
  rfl

theorem plays_loaded (id : TaskId) : [loaded id].foldlM (play id) [] = some ["<main>"] := by
  rw [List.foldlM_cons, play, if_pos rfl, if_pos rfl]
  rfl

theorem plays_loaded_other {main : TaskId} (h : main ≠ id) (stack : List String) :
    [loaded main].foldlM (play id) stack = some stack := by
  rw [List.foldlM_cons, play, if_neg h]
  rfl

/-- What can be replayed could be at any time before. -/
theorem replay_prefix {pre : List Notice} (hpre : pre <+: log) (h : replay id log = some stack) :
    ∃ before, replay id pre = some before := by
  obtain ⟨post, rfl⟩ := hpre
  rw [replay_append] at h
  obtain ⟨before, hbefore, -⟩ := Option.bind_eq_some_iff.mp h
  exact ⟨before, hbefore⟩

end Notice

/-! ## Names of functions -/

namespace Heap

variable {h h' : Heap} {c : ClosureId}

/-- The name of the function of a closure. -/
def functionName (h : Heap) (c : ClosureId) : String := (h.closureTemplate c).name

/-- A closure is there, and so is its function. -/
def knows (h : Heap) (c : ClosureId) : Bool :=
  c < h.closures.size && (h.closure c).template < h.templates.size

/-- Functions are never changed, only added. -/
structure Names (h h' : Heap) : Prop where
  closures : ∃ fresh, h'.closures = h.closures ++ fresh
  templates : ∃ fresh, h'.templates = h.templates ++ fresh

theorem Names.of_eq (hc : h'.closures = h.closures) (ht : h'.templates = h.templates) :
    h.Names h' := ⟨⟨#[], by rw [hc, Array.append_empty]⟩, ⟨#[], by rw [ht, Array.append_empty]⟩⟩

theorem Names.trans {h'' : Heap} (hn : h.Names h') (hn' : h'.Names h'') : h.Names h'' where
  closures := by
    obtain ⟨f, hf⟩ := hn.closures
    obtain ⟨g, hg⟩ := hn'.closures
    exact ⟨f ++ g, by rw [hg, hf, Array.append_assoc]⟩
  templates := by
    obtain ⟨f, hf⟩ := hn.templates
    obtain ⟨g, hg⟩ := hn'.templates
    exact ⟨f ++ g, by rw [hg, hf, Array.append_assoc]⟩

theorem SameFunctions.names (hs : h.SameFunctions h') : h.Names h' :=
  .of_eq hs.closures hs.templates

theorem Extends.names (he : h.Extends h') : h.Names h' where
  closures := by
    obtain ⟨fresh, hfresh, -⟩ := he.closures
    exact ⟨fresh, hfresh⟩
  templates := he.templates

/-- What is there stays, with its name. -/
theorem Names.knows (hn : h.Names h') (hk : h.knows c = true) :
    h'.knows c = true ∧ h'.functionName c = h.functionName c := by
  obtain ⟨hc, ht⟩ := Bool.and_eq_true_iff.mp hk
  have hc : c < h.closures.size := of_decide_eq_true hc
  have ht : (h.closure c).template < h.templates.size := of_decide_eq_true ht
  obtain ⟨fc, hfc⟩ := hn.closures
  obtain ⟨ft, hft⟩ := hn.templates
  have hclosure : h'.closure c = h.closure c := by
    unfold closure
    rw [hfc, Array.getD_eq_getD_getElem?, Array.getElem?_append_left hc,
      Array.getD_eq_getD_getElem?]
  have htemplate : h'.template (h.closure c).template = h.template (h.closure c).template := by
    unfold template
    rw [hft, Array.getD_eq_getD_getElem?, Array.getElem?_append_left ht,
      Array.getD_eq_getD_getElem?]
  refine ⟨?_, ?_⟩
  · unfold Heap.knows
    rw [hclosure, hfc, hft, Array.size_append, Array.size_append]
    exact Bool.and_eq_true_iff.mpr ⟨decide_eq_true (Nat.lt_add_right _ hc),
      decide_eq_true (Nat.lt_add_right _ ht)⟩
  · unfold functionName closureTemplate
    rw [hclosure, htemplate]

theorem Names.functionNames (hn : h.Names h') {cs : List ClosureId}
    (hk : ∀ c ∈ cs, h.knows c = true) : cs.map h'.functionName = cs.map h.functionName :=
  List.map_congr_left fun c hc => (hn.knows (hk c hc)).2

end Heap

theorem ChangeIn.functions {s s' : Turn} (h : Change s s') : s.heap.Names s'.heap := by
  cases h with
  | heap hh => exact hh.names
  | @close c hc => exact ⟨⟨#[c], Array.push_eq_append⟩, ⟨#[], (Array.append_empty).symm⟩⟩
  | @writeCell cell hc v =>
    obtain ⟨cells, tasks, stack, touched, hs⟩ := writeCell_frame s cell v
    rw [hs]
    exact .of_eq rfl rfl
  | @capture f fs hf slot =>
    rw [endState_ok (captureSlot_apply s (f.stackBase + slot)), OpenUpvalues.capture_frame]
    exact .of_eq rfl rfl
  | @leave f callers hf =>
    rw [dropFrame_heap]
    exact .of_eq rfl rfl
  | @spawn child hc name hid hh h he =>
    have hnew : s.heap.Names (s.heap.newHandle { id := child.id, name }).2 := .of_eq rfl rfl
    exact (hnew.trans he.names).trans (.of_eq rfl rfl)
  | _ => exact .of_eq rfl rfl

theorem DeedIn.functions {s s' : Turn} (h : Deed s s') : s.heap.Names s'.heap := by
  cases h with
  | change h => exact h.functions
  | wake w r =>
    rw [endState_ok (wake_apply s w r)]
    dsimp only
    rw [Machine.wake_frame]
    exact .of_eq rfl rfl
  | unwind hh v =>
    obtain ⟨acts, events, cells, frames, openUpvalues, iterations, stack, hs⟩ :=
      Turn.unwind_frame hh v
    rw [hs]
    exact .of_eq rfl rfl
  | _ => exact .of_eq rfl rfl

/-- **Functions stay as they are** during a turn. -/
theorem names_of_deeds {s s' : Turn} (h : Deeds s s') : s.heap.Names s'.heap := by
  induction h with
  | refl => exact .of_eq rfl rfl
  | tail _ hd ih => exact ih.trans hd.functions

/-! ## Calls that are on record -/

/-- The functions of a task are there, and are those that have been told. -/
def Task.OnRecord (h : Heap) (log : List Notice) (t : Task) : Prop :=
  (∀ c ∈ t.functions, h.knows c = true) ∧
    Notice.replay t.id log = some (t.functions.map h.functionName)

/-- What is on record stays there while functions are only added. -/
theorem Task.OnRecord.mono {h h' : Heap} {log log' : List Notice} {t t' : Task}
    (ht : t.OnRecord h log) (hn : h.Names h') (hid : t'.id = t.id)
    (hf : t'.functions = t.functions) (hlog : Notice.replay t.id log' = Notice.replay t.id log) :
    t'.OnRecord h' log' := by
  refine ⟨fun c hc => (hn.knows (ht.1 c (hf ▸ hc))).1, ?_⟩
  rw [hid, hlog, ht.2, hf, hn.functionNames ht.1]

namespace Machine

/-- What has been told of all tasks could be, and tells the calls of those that are there. -/
structure Recorded (log : List Notice) (m : Machine) : Prop where
  possible : ∀ id, ∃ stack, Notice.replay id log = some stack
  unborn : ∀ id, m.vm.scheduler.nextId ≤ id → Notice.replay id log = some []
  tasks : ∀ t, m.HasTask t → t.OnRecord m.heap log

variable {log : List Notice} {m m' : Machine}

/-- One task has been told of, and the others are as before. -/
theorem Recorded.hear (h : m.Recorded log) (who : TaskId) {more : List Notice}
    (hn : m.heap.Names m'.heap) (hnext : m.vm.scheduler.nextId ≤ m'.vm.scheduler.nextId)
    (hwho : more = [] ∨ who < m'.vm.scheduler.nextId)
    (hother : ∀ id, id ≠ who → Notice.replay id (log ++ more) = Notice.replay id log)
    (hplay : ∃ stack, Notice.replay who (log ++ more) = some stack)
    (hown : ∀ t, m'.HasTask t → t.id = who → t.OnRecord m'.heap (log ++ more))
    (htasks : ∀ t', m'.HasTask t' → t'.id ≠ who →
      ∃ t, m.HasTask t ∧ t'.id = t.id ∧ t'.functions = t.functions) :
    m'.Recorded (log ++ more) where
  possible id := by
    by_cases hid : id = who
    · exact hid ▸ hplay
    · rw [hother id hid]
      exact h.possible id
  unborn id hid := by
    by_cases hwhom : id = who
    · rcases hwho with rfl | hlt
      · rw [List.append_nil]
        exact h.unborn id (Nat.le_trans hnext hid)
      · exact absurd (hwhom ▸ hid) (Nat.not_le_of_lt hlt)
    · rw [hother id hwhom]
      exact h.unborn id (Nat.le_trans hnext hid)
  tasks t ht := by
    by_cases hid : t.id = who
    · exact hown t ht hid
    · obtain ⟨t₀, ht₀, hsame, hf⟩ := htasks t ht hid
      exact (h.tasks t₀ ht₀).mono hn hsame hf (hother t₀.id (hsame ▸ hid))

/-- Nothing has been told, and nothing has happened that should have been. -/
theorem Recorded.quiet (h : m.Recorded log) (hn : m.heap.Names m'.heap)
    (hnext : m.vm.scheduler.nextId ≤ m'.vm.scheduler.nextId)
    (htasks : ∀ t', m'.HasTask t' →
      ∃ t, m.HasTask t ∧ t'.id = t.id ∧ t'.functions = t.functions) : m'.Recorded log where
  possible := h.possible
  unborn id hid := h.unborn id (Nat.le_trans hnext hid)
  tasks t ht := by
    obtain ⟨t₀, ht₀, hsame, hf⟩ := htasks t ht
    exact (h.tasks t₀ ht₀).mono hn hsame hf rfl

end Machine

namespace Turn

variable {doing : Opcode → Prop} {log : List Notice} {s s' : Turn} {c : ClosureId}

/-- What has been told, during the turn too. -/
def Recorded (log : List Notice) (s : Turn) : Prop :=
  (Machine.ofTurn s).Recorded (log ++ s.events.map .told)

/-- The running task has been told of. -/
theorem Recorded.speak (h : s.Recorded log) {es : List Event} (ht : s.crew.Tended)
    (ht' : s'.crew.Tended) (hevents : s'.events = s.events ++ es) (hid : s'.task.id = s.task.id)
    (hn : s.heap.Names s'.heap)
    (hnext : s.vm.scheduler.nextId ≤ s'.vm.scheduler.nextId) (hothers : s.Others s')
    (hes : ∀ e ∈ es, e.task = s.task.id)
    (hknown : (∀ c ∈ s.task.functions, s.heap.knows c = true) →
      ∀ c ∈ s'.task.functions, s'.heap.knows c = true)
    (hplay : (∀ c ∈ s.task.functions, s.heap.knows c = true) →
      es.foldlM (fun st e => Event.play s.task.id st e) (s.task.functions.map s.heap.functionName) =
        some (s'.task.functions.map s'.heap.functionName)) : s'.Recorded log := by
  obtain ⟨hk, hreplay⟩ := h.tasks s.task (.inl rfl)
  have hlog : log ++ s'.events.map Notice.told = log ++ s.events.map .told ++ es.map .told := by
    rw [hevents, List.map_append, List.append_assoc]
  have hrunning : (Machine.ofTurn s).HasTask s.task := .inl rfl
  unfold Recorded
  rw [hlog]
  have hown : Notice.replay s.task.id (log ++ s.events.map .told ++ es.map .told) =
      some (s'.task.functions.map s'.heap.functionName) :=
    (Notice.replay_told hreplay es).trans (hplay hk)
  refine Machine.Recorded.hear h s.task.id hn hnext
    (.inr (Nat.lt_of_lt_of_le (hrunning.numbered ht) hnext)) (fun id hne => ?_) ⟨_, hown⟩ ?_ ?_
  · obtain ⟨stack, hstack⟩ := h.possible id
    rw [Notice.replay_told hstack, hstack]
    exact Event.plays_other (fun e he heq => hne (heq.symm.trans (hes e he))) stack
  -- The task that speaks has been told of, and the others are as they were.
  · rintro t (hr | ⟨k, hheld⟩) hwho
    · obtain rfl : s'.task = t := Option.some.inj hr
      exact ⟨hknown hk, hwho ▸ hown⟩
    · exact absurd (hwho.trans hid.symm) (held_ne ht' hheld)
  · rintro t (hr | ⟨k, hheld⟩) hwho
    · obtain rfl : s'.task = t := Option.some.inj hr
      exact absurd hid hwho
    · obtain ⟨k, t₀, written, hget, hrests⟩ := hothers k t hheld
      exact ⟨t₀, .inr ⟨k, hget⟩, hrests.id, Task.functions_congr hrests.entries⟩

/-- A task has begun, and has been told of. -/
theorem Recorded.born (h : s.Recorded log) (ht : s.crew.Tended) (hs : s.Spawns c s')
    (hknown : s.heap.knows c = true) : s'.Recorded log := by
  obtain ⟨hk, -⟩ := h.tasks s.task (.inl rfl)
  obtain ⟨child, hchild, htasks⟩ := hs.tasks
  have hfunctions : child.functions = [c] := by
    obtain ⟨base, hentries⟩ := hchild.entries
    rw [Task.functions_eq, hentries]
    rfl
  have hlog : log ++ s'.events.map Notice.told = log ++ s.events.map .told ++
      [.told (.called s.vm.scheduler.nextId (s.heap.functionName c) 1)] := by
    rw [hs.events, List.map_append, List.append_assoc]
    rfl
  have hn := hs.heap.names
  have hnext : s.vm.scheduler.nextId ≤ s'.vm.scheduler.nextId :=
    Nat.le_trans (Nat.le_succ _) (Nat.le_of_eq hs.nextId.symm)
  -- Nothing has been told of the child before, so its stack is the one call.
  have hown : Notice.replay s.vm.scheduler.nextId (log ++ s.events.map .told ++
      [.told (.called s.vm.scheduler.nextId (s.heap.functionName c) 1)]) =
      some [s.heap.functionName c] := by
    exact (Notice.replay_told (h.unborn _ (Nat.le_refl _)) [_]).trans
      (Event.plays_called s.vm.scheduler.nextId (s.heap.functionName c) [])
  unfold Recorded
  rw [hlog]
  refine Machine.Recorded.hear h s.vm.scheduler.nextId hn hnext
    (.inr (hs.nextId ▸ Nat.lt_succ_self _)) (fun id hne => ?_) ⟨_, hown⟩ ?_ ?_
  · obtain ⟨stack, hstack⟩ := h.possible id
    refine ((Notice.replay_told hstack [_]).trans ?_).trans hstack.symm
    refine Event.plays_other (fun e he => ?_) stack
    rw [List.mem_singleton.mp he]
    exact hne.symm
  · intro t ht' hwho
    have hnumbered : ∀ u, (Machine.ofTurn s).HasTask u → u.id < s.vm.scheduler.nextId :=
      fun u hu => hu.numbered ht
    rcases ht' with hr | ⟨k, hheld⟩
    · obtain rfl : s'.task = t := Option.some.inj hr
      exact absurd (hwho ▸ hs.id ▸ hnumbered s.task (.inl rfl)) (Nat.lt_irrefl _)
    · rcases htasks k t hheld with rfl | hold
      · refine ⟨fun c' hc' => ?_, ?_⟩
        · rw [hfunctions] at hc'
          exact List.mem_singleton.mp hc' ▸ (hn.knows hknown).1
        · rw [hwho, hown, hfunctions]
          exact congrArg (fun n => some [n]) (hn.knows hknown).2.symm
      · exact absurd (hwho ▸ hnumbered t (.inr ⟨k, hold⟩)) (Nat.lt_irrefl _)
  · rintro t (hr | ⟨k, hheld⟩) hwho
    · obtain rfl : s'.task = t := Option.some.inj hr
      exact ⟨s.task, .inl rfl, hs.id, Task.functions_congr hs.entries⟩
    · rcases htasks k t hheld with rfl | hold
      · exact absurd hchild.id hwho
      · exact ⟨t, .inr ⟨k, hold⟩, rfl, rfl⟩

/-- What an instruction does is told. -/
theorem Recorded.stirs (h : s.Recorded log) (ht : s.crew.Tended) (hd : Deeds s s')
    (hs : s.Stirs doing s')
    (hg : ∀ c, s.task.stack.back? = some (.closure c) → s.heap.knows c = true) :
    s'.Recorded log := by
  have ht' := tended_of_deeds hd ht
  have hn := names_of_deeds hd
  have hsilent : ∀ (_ : s'.events = s.events) (_ : s'.task.id = s.task.id)
      (_ : s'.task.entries = s.task.entries)
      (_ : s.vm.scheduler.nextId ≤ s'.vm.scheduler.nextId) (_ : s.Others s'), s'.Recorded log := by
    intro hevents hid hentries hnext hothers
    have hfunctions := Task.functions_congr hentries
    have hsame : s'.events = s.events ++ [] := by rw [hevents, List.append_nil]
    refine h.speak ht ht' hsame hid hn hnext hothers nofun
      (fun hk c hc => (hn.knows (hk c (hfunctions ▸ hc))).1) fun hk => ?_
    rw [hfunctions, hn.functionNames hk]
    rfl
  -- Entering and leaving are told as they happen. A child is told of under its own number.
  cases hs with
  | calm hs =>
    exact hsilent hs.events hs.id hs.entries (Nat.le_of_eq hs.nextId.symm)
      (others_of_deeds hd ht hs.nextId)
  | protects _ hs =>
    exact hsilent hs.events hs.id hs.entries (Nat.le_of_eq hs.nextId.symm)
      (others_of_deeds hd ht hs.nextId)
  | reserves hs =>
    exact hsilent hs.events hs.id hs.entries (hs.nextId ▸ Nat.le_succ _) (.of_eq hs.tasks)
  | @enters c base _ hc _ hs =>
    have hknown := hn.knows (hg c hc)
    have hfunctions : s'.task.functions = c :: s.task.functions := by
      rw [Task.functions_eq, hs.entries, List.map_cons, Task.functions_eq]
    refine h.speak ht ht' hs.events hs.id hn (Nat.le_of_eq hs.nextId.symm) (.of_eq hs.tasks)
      (fun e he => by rw [List.mem_singleton.mp he]; rfl) (fun hk c' hc' => ?_) fun hk => ?_
    · rw [hfunctions] at hc'
      rcases List.mem_cons.mp hc' with rfl | hc'
      · exact hknown.1
      · exact (hn.knows (hk c' hc')).1
    · rw [hfunctions, List.map_cons, hknown.2, hn.functionNames hk]
      have hdepth : s.task.frames.length = (s.task.functions.map s.heap.functionName).length := by
        rw [List.length_map, Task.functions, List.length_map]
      rw [hdepth]
      exact Event.plays_called _ _ _
  | leaves hs =>
    obtain ⟨f, callers, v, hf, hentries, hevents⟩ := hs.left
    have hall : s.task.functions = f.closure :: s'.task.functions := by
      rw [Task.functions_eq s'.task, hentries, Task.functions, hf, List.map_cons, List.map_map]
      rfl
    refine h.speak ht ht' hevents hs.id hn (Nat.le_of_eq hs.nextId.symm)
      (others_of_deeds hd ht hs.nextId) (fun e he => by rw [List.mem_singleton.mp he]; rfl)
      (fun hk c hc => ?_) fun hk => ?_
    · exact (hn.knows (hk c (hall ▸ List.mem_cons_of_mem _ hc))).1
    · rw [hall] at hk ⊢
      rw [hn.functionNames fun c hc => hk c (List.mem_cons_of_mem _ hc)]
      exact Event.plays_returned _ v [_] _
  | @spawns c hc hs => exact h.born ht hs (hg c hc)

/-- Errors are no concern of calls. -/
theorem Recorded.raised (h : s.Recorded log) (ht : s.crew.Tended) (e : RuntimeError) :
    Turn.Recorded log { s with events := s.events ++ [.raised s.task.id e] } :=
  h.speak ht ht rfl rfl (.of_eq rfl rfl) (Nat.le_refl _) (.of_eq rfl)
    (fun e he => by rw [List.mem_singleton.mp he]; rfl) id fun _ => rfl

/-- **Frames that are left by a throw** are told to be left, from the innermost on. -/
theorem Recorded.unwind (h : s.Recorded log) (ht : s.crew.Tended) (v : Value) :
    (s.unwind v).2.Recorded log := by
  have hd : Deeds s (s.unwind v).2 := deeds_unwind s v
  have hu := s.unwind_unwinds v
  obtain ⟨n, w, hevents, hentries⟩ := hu.left
  have hfunctions : (s.unwind v).2.task.functions = s.task.functions.drop n := by
    rw [Task.functions_eq, hentries, List.map_drop, Task.functions_eq]
  have hn := hu.heap.names
  have htold : s.returnedByThrow w (s.task.frames.take n) =
      ((s.task.functions.take n).map s.heap.functionName).map fun name =>
        .returned s.task.id name w := by
    rw [returnedByThrow, Task.functions, ← List.map_take, List.map_map, List.map_map]
    rfl
  refine h.speak ht (tended_of_deeds hd ht) hevents hu.id hn
    (Nat.le_of_eq (congrArg (·.scheduler.nextId) hu.vm.symm))
    (.of_eq (congrArg (·.scheduler.tasks) hu.vm)) (fun e he => ?_) (fun hk c hc => ?_) fun hk => ?_
  · obtain ⟨f, -, rfl⟩ := List.mem_map.mp he
    rfl
  · rw [hfunctions] at hc
    exact (hn.knows (hk c (List.mem_of_mem_drop hc))).1
  · rw [htold, hfunctions, hn.functionNames fun c hc => hk c (List.mem_of_mem_drop hc)]
    -- The frames that are left are told of one by one, from the innermost.
    conv_lhs => rw [← List.take_append_drop n s.task.functions, List.map_append]
    rw [List.take_append_drop]
    exact Event.plays_returned _ w _ _

theorem Recorded.perform {x : Exec Flow} (ht : s.crew.Tended) (hd : Leads Deeds x s)
    (hx : (endState x s).Recorded log) : (s.perform x).2.Recorded log := by
  have ht' := tended_of_deeds hd ht
  unfold Turn.perform
  cases hrun : x s with
  | ok flow s' =>
    rw [endState_ok hrun] at hx ht'
    cases flow with
    | thrown v => exact hx.unwind ht' v
    | _ => exact hx
  | error e s' =>
    rw [endState_error hrun] at hx ht'
    cases e with
    | endless => exact hx
    | raised e =>
      dsimp only [recover]
      split
      · exact hx.raised ht' e
      · exact (hx.raised ht' e).unwind ht' _

/-- **What the running task does is told.** -/
theorem Recorded.advance (h : s.Recorded log) (hh : ∀ f ∈ s.hosts, f.Tame) (ht : s.crew.Tended)
    (hg : ∀ c, s.task.stack.back? = some (.closure c) → s.heap.knows c = true) :
    s.advance.2.Recorded log := by
  cases ha : s.action with
  | none =>
    rw [advance_done ha]
    exact h
  | some a =>
    obtain ⟨hd₀, hd⟩ := deeds_action ha hh
    rw [advance_action ha]
    exact .perform (tended_of_deeds hd₀ ht) hd (h.stirs ht (hd₀.trans hd) (stirs_action ha) hg)

end Turn

namespace Machine

variable {log : List Notice} {m m' m₀ : Machine}

/-- If the topmost operand of the running task is a closure, it is there. -/
def grounded (m : Machine) : Bool :=
  match m.running.bind (·.stack.back?) with
  | some (.closure c) => m.heap.knows c
  | _ => true

theorem grounded_knows (h : m.grounded = true) {task : Task} (hr : m.running = some task)
    {c : ClosureId} (hc : task.stack.back? = some (.closure c)) : m.heap.knows c = true := by
  unfold grounded at h
  rw [hr, Option.bind_some, hc] at h
  exact h

theorem Resettles.functions (h : m.Resettles m') : m.heap.Names m'.heap := by
  rw [h.heap]
  exact .of_eq rfl rfl

theorem Resettles.recorded (h : m.Resettles m') (ht : ∀ t, m'.HasTask t → m.HasTask t)
    (hm : m.Recorded log) : m'.Recorded log :=
  hm.quiet h.functions (Nat.le_of_eq h.nextId.symm) fun t htask => ⟨t, ht t htask, rfl, rfl⟩

theorem Recorded.tick (h : m.Recorded log) (hm : m.Fit) (hg : m.grounded = true) :
    m.tick.machine.Recorded (log ++ m.tick.events.map .told) := by
  refine tick_induct (P := (·.Recorded (log ++ m.tick.events.map .told))) ?_ ?_ ?_
  · intro hr
    rw [tick_between hr, dispatch_events, List.map_nil, List.append_nil]
    exact m.dispatch_resettles.recorded (fun _ => dispatch_hasTask hm.tended) h
  · intro task hr
    rw [tick_events hr]
    refine Turn.Recorded.advance ?_ hm.tame (hm.turn hr) fun c hc => grounded_knows hg hr hc
    unfold Turn.Recorded
    rw [ofTurn_turn hr]
    exact (List.append_nil log).symm ▸ h
  · exact fun _ _ _ _ _ hover hs => hover.resettles.recorded (fun _ => hover.hasTask) hs

/-- Loading a program begins its main task, and is told as such. -/
theorem Recorded.load (h : m.Recorded log) (hr : m.running = none) (chunk : ChunkId) :
    (m.load chunk).2.Recorded (log ++ [.loaded (m.load chunk).1]) := by
  have hn : m.heap.Names (m.load chunk).2.heap :=
    m.shutdown_resettles.functions.trans ⟨⟨_, Array.push_eq_append⟩, ⟨_, Array.push_eq_append⟩⟩
  have hname : (m.load chunk).2.heap.functionName m.shutdown.heap.closures.size = "<main>" :=
    congrArg Template.name (m.load_template chunk)
  have hknown : (m.load chunk).2.heap.knows m.shutdown.heap.closures.size = true := by
    rw [Heap.knows, load_closure]
    exact Bool.and_eq_true_iff.mpr ⟨decide_eq_true (by exact Array.size_push .. ▸ Nat.lt_succ_self _),
      decide_eq_true (by exact Array.size_push .. ▸ Nat.lt_succ_self _)⟩
  have hown : Notice.replay m.vm.scheduler.nextId (log ++ [.loaded (m.load chunk).1]) =
      some ["<main>"] := by
    rw [Notice.replay_append, h.unborn _ (Nat.le_refl _)]
    exact Notice.plays_loaded _
  -- All other tasks are gone, so that there is only the main task to be told of.
  have hmain : ∀ t, (m.load chunk).2.HasTask t → t.id = m.vm.scheduler.nextId ∧
      t.functions = [m.shutdown.heap.closures.size] := by
    intro t ht
    obtain ⟨handle, f, rfl, hf, -⟩ := load_hasTask hr ht
    exact ⟨rfl, congrArg (fun c => [c]) hf⟩
  refine h.hear m.vm.scheduler.nextId hn (Nat.le_succ _) (.inr (Nat.lt_succ_self _))
    (fun id hne => ?_) ⟨_, hown⟩ (fun t ht hid => ?_)
    fun t ht hne => absurd (hmain t ht).1 hne
  · obtain ⟨stack, hstack⟩ := h.possible id
    rw [Notice.replay_append, hstack]
    exact Notice.plays_loaded_other hne.symm stack
  · refine ⟨fun c hc => ?_, ?_⟩
    · rw [(hmain t ht).2] at hc
      exact List.mem_singleton.mp hc ▸ hknown
    · rw [hid, hown, (hmain t ht).2, List.map_singleton, hname]

/-! ## Runs with a debugger -/

/-- What may happen to a machine: the machines that ticks have begun with, and what a debugger has
come to know that has been there from the beginning. -/
inductive Heard (ok : Machine → Prop) (m₀ : Machine) :
    List Machine → List Notice → Machine → Prop where
  | refl : Heard ok m₀ [] [] m₀
  | tick {ms : List Machine} {log : List Notice} {m : Machine} (h : Heard ok m₀ ms log m)
      (hok : ok m) (hend : m.tick.outcome ≠ some .endless) :
      Heard ok m₀ (ms ++ [m]) (log ++ m.tick.events.map .told) m.tick.machine
  | load {ms : List Machine} {log : List Notice} {m : Machine} (h : Heard ok m₀ ms log m)
      (hr : m.running = none) (chunk : ChunkId) :
      Heard ok m₀ ms (log ++ [.loaded (m.load chunk).1]) (m.load chunk).2
  | pause {ms : List Machine} {log : List Notice} {m : Machine} (h : Heard ok m₀ ms log m) :
      Heard ok m₀ ms log m.pause.1
  /-- Whatever else the embedder does is no concern of tasks. -/
  | prepare {ms : List Machine} {log : List Notice} {m m' : Machine} (h : Heard ok m₀ ms log m)
      (hh : ∀ f ∈ m'.hosts, f.Tame) (he : m.heap.Extends m'.heap) (hv : m.vm.Alike m'.vm)
      (hr : m'.running = m.running) : Heard ok m₀ ms log m'

variable {ok : Machine → Prop} {ms : List Machine}

/-- A run with a debugger is a run. -/
theorem Heard.run (h : Heard ok m₀ ms log m) : ∃ hist, Run ok m₀ hist m := by
  induction h with
  | refl => exact ⟨_, .refl⟩
  | tick _ hok hend ih =>
    obtain ⟨hist, hrun⟩ := ih
    exact ⟨_, hrun.tail (.tick hok hend)⟩
  | load _ hr chunk ih =>
    obtain ⟨hist, hrun⟩ := ih
    exact ⟨_, hrun.tail (.load hr chunk)⟩
  | pause _ ih =>
    obtain ⟨hist, hrun⟩ := ih
    exact ⟨_, hrun.tail .pause⟩
  | prepare _ hh he hv hr ih =>
    obtain ⟨hist, hrun⟩ := ih
    exact ⟨_, hrun.tail (.prepare hh he hv hr)⟩

/-- A condition that always holds where another does may take its place. -/
theorem Heard.mono {ok' : Machine → Prop} (hok : ∀ m, ok m → ok' m) (h : Heard ok m₀ ms log m) :
    Heard ok' m₀ ms log m := by
  induction h with
  | refl => exact .refl
  | tick _ h hend ih => exact ih.tick (hok _ h) hend
  | load _ hr chunk ih => exact ih.load hr chunk
  | pause _ ih => exact ih.pause
  | prepare _ hh he hv hr ih => exact ih.prepare hh he hv hr

/-- **Calls are on record at any time.** -/
theorem Heard.recorded (h : Heard (grounded · = true) m₀ ms log m) (hm : m₀.Fit)
    (h₀ : m₀.Recorded []) : m.Recorded log := by
  induction h with
  | refl => exact h₀
  | tick hrun hok _ ih =>
    obtain ⟨_, hrun⟩ := hrun.run
    exact ih.tick (hrun.fit hm) hok
  | load _ hr chunk ih => exact ih.load hr chunk
  | pause _ ih =>
    exact (pause_resettles _).recorded (fun _ => pause_hasTask) ih
  | prepare _ hh he hv hr ih =>
    refine ih.quiet he.names (Nat.le_of_eq (congrArg Scheduler.nextId hv.scheduler).symm)
      fun t ht => ⟨t, ?_, rfl, rfl⟩
    unfold HasTask at ht ⊢
    rwa [hr, hv.scheduler] at ht

/-- A new machine has no tasks, so there is nothing to be told. -/
theorem create_recorded (hosts : Array HostFunction) (h : Heap) (id : VmId) (config : VmConfig)
    (dice : Dice) : (create hosts h id config dice).Recorded [] where
  possible _ := ⟨_, rfl⟩
  unborn _ _ := rfl
  tasks t ht := by
    rcases ht with hr | ⟨k, hk⟩
    · cases hr
    · have hempty : (create hosts h id config dice).vm.scheduler.get? k = none :=
        Std.ExtTreeMap.getElem?_empty
      rw [hempty] at hk
      cases hk

/-! ### What a debugger remembers -/

variable {σ : Type}

/-- One machine comes from another by ticks. -/
abbrev Ticks : Machine → Machine → Prop := ReflTransGen fun m m' => m' = m.tick.machine

theorem notices_question (m : Machine) (go : Bool) :
    (m.question go).filterMap Call.notice? = [] := by
  unfold question
  split <;> rfl

theorem notices_calls (m : Machine) : m.calls.filterMap Call.notice? = m.tick.events.map .told := by
  rw [calls, List.filterMap_append, notices_question, List.nil_append, List.filterMap_map]
  show m.tick.events.filterMap (some ∘ Notice.told) = _
  rw [List.filterMap_eq_map]

/-- A program that is run with a debugger is heard by it. -/
theorem Heard.runFor {hook : Hook σ} {o : Outcome} (ho : o ≠ .endless) : ∀ {fuel : Nat}
    {ms : List Machine} {log : List Notice} {m m' : Machine} {s s' : σ}
    {calls calls' : List Call}, Heard ok m₀ ms log m → (∀ m', Ticks m m' → ok m') →
    m.runFor (some hook.logged) fuel (s, calls) = some (o, m', s', calls') →
    ∃ ms' more, calls' = calls ++ more ∧ Heard ok m₀ ms' (log ++ more.filterMap Call.notice?) m'
  | 0, _, _, _, _, _, _, _, _, _, _, hrun => nomatch hrun
  | fuel + 1, ms, log, m, m', s, s', calls, calls', h, hok, hrun => by
    rw [runFor_logged] at hrun
    split at hrun
    -- The hook has refused, and the machine is paused without having ticked.
    · injection hrun with hrun
      injection hrun with _ hrun
      injection hrun with hm hrun
      injection hrun with _ hentries
      refine ⟨ms, _, hentries.symm, ?_⟩
      rw [notices_question, List.append_nil, ← hm]
      exact h.pause
    · split at hrun
      · rename_i o' hend
        injection hrun with hrun
        injection hrun with hout hrun
        injection hrun with hm hrun
        injection hrun with _ hentries
        refine ⟨ms ++ [m], _, hentries.symm, ?_⟩
        rw [notices_calls, ← hm]
        exact h.tick (hok m .refl) fun hendless => ho (hout.symm.trans
          (Option.some.inj (hend.symm.trans hendless)))
      · rename_i hend
        have htick := h.tick (hok m .refl) (by rw [hend]; nofun)
        obtain ⟨ms', more, hmore, hheard⟩ :=
          htick.runFor ho (fun m' hm' => hok m' (.head rfl hm')) hrun
        refine ⟨ms', m.calls ++ more, by rw [hmore, List.append_assoc], ?_⟩
        rwa [List.filterMap_append, notices_calls, ← List.append_assoc]

/-- **A debugger hears** of whatever program it is kept for. -/
theorem Heard.listen {hook : Hook σ} {o : Outcome} {fuel : Nat} {s s' : σ} {calls : List Call}
    (h : Heard ok m₀ ms log m) (ht : ∀ f ∈ m.hosts, f.Tame)
    (hok : ∀ m', Ticks { m with vm := m.vm.warmUp } m' → ok m') (ho : o ≠ .endless)
    (hrun : m.run (some hook.logged) fuel (s, []) = some (o, m', s', calls)) :
    ∃ ms', Heard ok m₀ ms' (log ++ calls.filterMap Call.notice?) m' := by
  unfold Machine.run at hrun
  split at hrun
  · injection hrun with hrun
    injection hrun with _ hrun
    injection hrun with hm hrun
    injection hrun with _ hentries
    rw [← hentries, ← hm, List.filterMap_nil, List.append_nil]
    exact ⟨ms, h⟩
  · have hwarm : Heard ok m₀ ms log { m with vm := m.vm.warmUp } :=
      h.prepare ht (Heap.Extends.refl _) (Vm.warmUp_alike _) rfl
    obtain ⟨ms', more, rfl, hheard⟩ := hwarm.runFor ho hok hrun
    exact ⟨ms', hheard⟩

/-- **Calls can be told from events.** All that is told of a task fits together at any moment: a
function is left only when it is the innermost one, and each call tells how many there are then.
The names that are left are those of the task's frames, as long as the task is there. -/
theorem Heard.replays_calls {hosts : Array HostFunction} (ht : ∀ f ∈ hosts, f.Tame) {h : Heap}
    {id : VmId} {config : VmConfig} {dice : Dice}
    (hrun : Heard (grounded · = true) (create hosts h id config dice) ms log m) :
    (∀ task pre, pre <+: log → ∃ stack, Notice.replay task pre = some stack) ∧
    ∀ t, m.HasTask t →
      Notice.replay t.id log = some (t.frames.map fun f => f.functionName m.heap) := by
  have hm := hrun.recorded (create_fit ht h id config dice) (create_recorded hosts h id config dice)
  refine ⟨fun task pre hpre => ?_, fun t htask => ?_⟩
  · obtain ⟨stack, hstack⟩ := hm.possible task
    exact Notice.replay_prefix hpre hstack
  · rw [(hm.tasks t htask).2, Task.functions, List.map_map]
    rfl

/-- Tick a number of times, as long as each tick satisfies a condition, and listen. -/
def hearFor (ok : Machine → Bool) : Nat → Machine → List Machine → List Notice →
    Option (List Machine × List Notice × Machine)
  | 0, m, ms, log => some (ms, log, m)
  | n + 1, m, ms, log =>
    if ok m && decide (m.tick.outcome ≠ some .endless) then
      hearFor ok n m.tick.machine (ms ++ [m]) (log ++ m.tick.events.map .told)
    else none

theorem heard_of_hearFor {ok : Machine → Bool} : ∀ {n : Nat} {ms ms' : List Machine}
    {log log' : List Notice} {m m' : Machine}, Heard (ok · = true) m₀ ms log m →
    hearFor ok n m ms log = some (ms', log', m') → Heard (ok · = true) m₀ ms' log' m'
  | 0, _, _, _, _, _, _, hr, h => by
    injection h with h
    injection h with hms h
    injection h with hlog hm
    exact hms ▸ hlog ▸ hm ▸ hr
  | n + 1, ms, ms', log, log', m, m', hr, h => by
    unfold hearFor at h
    split at h
    · rename_i hcond
      obtain ⟨hok, hend⟩ := Bool.and_eq_true_iff.mp hcond
      exact heard_of_hearFor (hr.tick hok (of_decide_eq_true hend)) h
    · cases h

/-- A function that throws is called, and left by the throw. -/
theorem rescue_replays : ∃ ms log m task,
    Heard (grounded · = true) (create #[] rescue 0 {} {}) ms log m ∧ m.running = some task ∧
    log = [.loaded 0, .told (.called 0 "thrower" 2), .told (.returned 0 "thrower" (.bool true))] ∧
    (∃ stack, Notice.replay 0 (log.take 2) = some stack) ∧
    Notice.replay task.id log = some (task.frames.map fun f => f.functionName m.heap) := by
  have hrun : ((hearFor grounded 6 ((create #[] rescue 0 {} {}).load 0).2 [] [.loaded 0]).any
      fun r => r.2.2.running.isSome && decide (r.2.1 = [.loaded 0,
        .told (.called 0 "thrower" 2), .told (.returned 0 "thrower" (.bool true))])) = true := by
    decide +kernel
  obtain ⟨⟨ms, log, m⟩, hticks, hp⟩ := (Option.any_eq_true _ _).mp hrun
  obtain ⟨htask, hlog⟩ := Bool.and_eq_true_iff.mp hp
  obtain ⟨task, htask⟩ := Option.isSome_iff_exists.mp htask
  have hheard := heard_of_hearFor (Heard.refl.load rfl 0) hticks
  obtain ⟨hpossible, htasks⟩ := Heard.replays_calls (by simp) hheard
  exact ⟨ms, log, m, task, hheard, htask, of_decide_eq_true hlog,
    hpossible 0 _ (List.take_prefix 2 log), htasks task (.inl htask)⟩

end Machine

end TaskVm
