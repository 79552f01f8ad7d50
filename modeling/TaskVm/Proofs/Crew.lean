import TaskVm.Proofs.Changes
import Mathlib.Data.Bool.Basic

/-!
# The crew of a machine

Who is held, who has the turn, who is queued, and at which stage of its life each task is.
A task's stage is not part of the task: it is kept under a handle that programs can look at,
and whatever changes a stage does it through the handle. That each task has a handle to
itself is therefore the invariant everything else about scheduling rests on.

The crew is what scheduling depends on and nothing else, so that the instructions that only
compute leave it as it is.
-/

namespace TaskVm

/-- What scheduling knows of a task. -/
structure Badge where
  id : TaskId
  handle : HandleId
  epoch : Nat
  resume : Option Resume

/-- Where a task stands with its waits. -/
structure Wait where
  /-- The number of the wait that is on, or else of the next one. -/
  number : Nat
  parked : Bool
  /-- What the last wait has come to, until the task picks it up. -/
  resume : Option Resume

/-- A waiter of a wait that is on. -/
def Wait.live (waits : TaskId → Option Wait) (w : Waiter) : Bool :=
  match waits w.task with
  | some x => x.parked && x.number == w.epoch
  | none => false

theorem Wait.live_iff {waits : TaskId → Option Wait} {w : Waiter} :
    live waits w = true ↔ ∃ x, waits w.task = some x ∧ x.parked = true ∧ x.number = w.epoch := by
  unfold live
  split
  · rename_i x hx
    simp [hx]
  · rename_i hx
    simp [hx]

def Task.badge (t : Task) : Badge := ⟨t.id, t.handle, t.waitEpoch, t.resume⟩

/-- The tasks of a machine, as scheduling sees them. -/
@[ext]
structure Crew where
  held : TaskId → Option Badge
  running : Option Badge
  queue : List TaskId
  nextId : TaskId
  main : Option TaskId
  /-- The handles of the tasks of the program. -/
  roster : TaskId → Option HandleId
  /-- How many handles there are. -/
  handles : Nat
  status : HandleId → TaskStatus

def Machine.crew (m : Machine) : Crew where
  held id := (m.vm.scheduler.get? id).map Task.badge
  running := m.running.map Task.badge
  queue := m.vm.scheduler.queue
  nextId := m.vm.scheduler.nextId
  main := m.vm.main
  roster id := m.vm.handles[id]?
  handles := m.heap.handles.size
  status h := (m.heap.handle h).status

def Turn.crew (s : Turn) : Crew := (Machine.ofTurn s).crew

namespace Crew

/-- A task is one of the crew. -/
def Has (c : Crew) (id : TaskId) : Prop :=
  (∃ b, c.running = some b ∧ b.id = id) ∨ c.held id ≠ none

/-- A waiter of a wait that its task is still in. -/
def live (c : Crew) (w : Waiter) : Bool :=
  match c.held w.task with
  | some b => c.status b.handle == .blocked && b.epoch == w.epoch
  | none => false

/-! ## What happens to a crew -/

/-- Hold a task. -/
def keep (c : Crew) (b : Badge) : Crew :=
  { c with held := fun id => if id = b.id then some b else c.held id }

/-- Move the task of a handle to another stage. -/
def mark (c : Crew) (h : HandleId) (st : TaskStatus) : Crew :=
  { c with status := fun k => if k = h ∧ k < c.handles then st else c.status k }

/-- Give out a number and a handle. -/
def reserve (c : Crew) : Crew := { c with nextId := c.nextId + 1, handles := c.handles + 1 }

/-- Take a new task on. -/
def enlist (c : Crew) : Crew :=
  let b : Badge := ⟨c.nextId, c.handles, 0, none⟩
  { (c.reserve.keep b).mark b.handle .runnable with
    queue := c.queue ++ [b.id]
    roster := fun id => if id = b.id then some b.handle else c.roster id }

/-- End the wait of a waiter's task. -/
def wake (c : Crew) (w : Waiter) (r : Resume) : Crew :=
  match c.held w.task with
  | some b =>
    if c.live w then
      { (c.keep { b with epoch := b.epoch + 1, resume := some r }).mark b.handle .runnable with
        queue := c.queue ++ [b.id] }
    else c
  | none => c

/-- The running task picks up what its wait has come to. -/
def resume (c : Crew) (b : Badge) : Crew :=
  { c with running := some { b with resume := none } }

/-- The first queued task has its turn. -/
def dispatch (c : Crew) (b : Badge) (queue : List TaskId) : Crew :=
  { c with
    held := fun id => if id = b.id then none else c.held id
    running := some b
    queue
    status := (c.mark b.handle .running).status }

/-- The running task is put back in the queue, at some place. -/
def requeue (c : Crew) (b : Badge) (queue : List TaskId) : Crew :=
  { (c.keep b).mark b.handle .runnable with running := none, queue }

/-- The running task is parked. -/
def block (c : Crew) (b : Badge) : Crew :=
  { (c.keep b).mark b.handle .blocked with running := none }

/-- The running task has come to its end. -/
def retire (c : Crew) (b : Badge) (st : TaskStatus) : Crew :=
  { c.mark b.handle st with running := none }

/-- All tasks that are held are given up. -/
def disband (c : Crew) : Crew := { c with held := fun _ => none, queue := [], main := none }

/-- A new program's main task is alone on the roster. -/
def start (c : Crew) : Crew :=
  { c.disband.enlist with
    main := some c.nextId
    roster := fun id => if id = c.nextId then some c.handles else none }

/-! ## Order in the crew -/

/-- Everyone is where they belong. -/
structure Tended (c : Crew) : Prop where
  keyed : ∀ id b, c.held id = some b → b.id = id
  /-- The running task is not among those held. -/
  away : ∀ b, c.running = some b → c.held b.id = none
  /-- Everyone is on the roster. -/
  known : ∀ id b, c.held id = some b → c.roster id = some b.handle
  runs : ∀ b, c.running = some b → c.roster b.id = some b.handle
  listed : ∀ id h, c.roster id = some h → id < c.nextId ∧ h < c.handles
  /-- Each task has a handle to itself. -/
  apart : ∀ i j h, c.roster i = some h → c.roster j = some h → i = j
  busy : ∀ b, c.running = some b → c.status b.handle = .running
  parked : ∀ id b, c.held id = some b → c.status b.handle = .blocked →
    b.resume = none ∧ id ∉ c.queue
  ready : ∀ id b, c.held id = some b → c.status b.handle ≠ .blocked →
    c.status b.handle = .runnable ∧ id ∈ c.queue
  queued : ∀ id ∈ c.queue, c.held id ≠ none
  once : c.queue.Nodup
  main : ∀ id, c.main = some id → c.Has id
  /-- While a program is there, so are its tasks until they have ended. -/
  present : c.main ≠ none → ∀ id h, c.roster id = some h → (c.status h).isFinished = false →
    c.Has id

namespace Tended

variable {c : Crew} {b : Badge}

-- What happens to a crew concerns one task. Each field of the invariant holds for all others
-- because it held before, and for that task because of what it has become.

theorem nodup_snoc {l : List TaskId} {id : TaskId} (h : l.Nodup) (hid : id ∉ l) :
    (l ++ [id]).Nodup :=
  List.nodup_append.mpr ⟨h, by simp, fun a ha b hb hab =>
    hid (List.mem_singleton.mp hb ▸ hab ▸ ha)⟩

/-- A number that has not been given out is nobody's. -/
theorem fresh (h : c.Tended) : c.nextId ∉ c.queue := by
  intro hq
  cases hb : c.held c.nextId with
  | none => exact h.queued _ hq hb
  | some b => exact Nat.lt_irrefl _ (h.listed _ _ (h.known _ _ hb)).1

theorem running_not_queued (h : c.Tended) (hr : c.running = some b) : b.id ∉ c.queue :=
  fun hq => h.queued _ hq (h.away b hr)

theorem reserve (h : c.Tended) : c.reserve.Tended := by
  obtain ⟨hkeyed, haway, hknown, hruns, hlisted, hapart, hbusy, hparked, hready, hqueued,
    hdistinct, hmainHas, hpresent⟩ := h
  constructor <;> simp only [Crew.reserve, Has] at *
  all_goals first | assumption | grind

theorem enlist (h : c.Tended) : c.enlist.Tended := by
  have hfresh := h.fresh
  obtain ⟨hkeyed, haway, hknown, hruns, hlisted, hapart, hbusy, hparked, hready, hqueued,
    hdistinct, hmainHas, hpresent⟩ := h
  constructor <;> simp only [Crew.enlist, Crew.reserve, Crew.keep, Crew.mark, Has] at *
  case once => exact nodup_snoc hdistinct hfresh
  all_goals first | assumption | grind

theorem wake (h : c.Tended) (w : Waiter) (r : Resume) : (c.wake w r).Tended := by
  unfold Crew.wake
  split
  · rename_i b hb
    split
    · rename_i hlive
      have hst : c.status b.handle = .blocked := by
        rw [live, hb] at hlive
        exact beq_iff_eq.mp (Bool.and_eq_true_iff.mp hlive).1
      have hq := (h.parked _ _ hb hst).2
      obtain ⟨hkeyed, haway, hknown, hruns, hlisted, hapart, hbusy, hparked, hready, hqueued,
        hdistinct, hmainHas, hpresent⟩ := h
      constructor <;> simp only [Crew.keep, Crew.mark, Has] at *
      case once =>
        refine nodup_snoc hdistinct ?_
        rwa [hkeyed _ _ hb]
      all_goals first | assumption | grind
    · exact h
  · exact h

theorem resume (h : c.Tended) (hr : c.running = some b) : (c.resume b).Tended := by
  obtain ⟨hkeyed, haway, hknown, hruns, hlisted, hapart, hbusy, hparked, hready, hqueued,
    hdistinct, hmainHas, hpresent⟩ := h
  constructor <;> simp only [Crew.resume, Has] at *
  all_goals first | assumption | grind

theorem dispatch (h : c.Tended) (hr : c.running = none) {queue : List TaskId}
    (hb : c.held b.id = some b) (hq : c.queue = b.id :: queue) :
    (c.dispatch b queue).Tended := by
  have honce := h.once
  rw [hq, List.nodup_cons] at honce
  obtain ⟨hkeyed, haway, hknown, hruns, hlisted, hapart, hbusy, hparked, hready, hqueued,
    hdistinct, hmainHas, hpresent⟩ := h
  constructor <;> simp only [Crew.dispatch, Crew.mark, Has] at *
  case once => exact honce.2
  all_goals first | assumption | grind

theorem requeue (h : c.Tended) (hr : c.running = some b) {queue : List TaskId}
    (hq : queue = c.queue ++ [b.id] ∨ queue = b.id :: c.queue) :
    (c.requeue b queue).Tended := by
  have hnot := h.running_not_queued hr
  have hmem : ∀ id, id ∈ queue ↔ id = b.id ∨ id ∈ c.queue := by
    intro id
    rcases hq with rfl | rfl
    · rw [List.mem_append, List.mem_singleton, or_comm]
    · exact List.mem_cons
  have honce : queue.Nodup := by
    rcases hq with rfl | rfl
    · exact nodup_snoc h.once hnot
    · exact List.nodup_cons.mpr ⟨hnot, h.once⟩
  clear hq
  obtain ⟨hkeyed, haway, hknown, hruns, hlisted, hapart, hbusy, hparked, hready, hqueued,
    hdistinct, hmainHas, hpresent⟩ := h
  constructor <;> simp only [Crew.requeue, Crew.keep, Crew.mark, Has] at *
  all_goals first | assumption | grind

theorem block (h : c.Tended) (hr : c.running = some b) (hnone : b.resume = none) :
    (c.block b).Tended := by
  have hnot := h.running_not_queued hr
  obtain ⟨hkeyed, haway, hknown, hruns, hlisted, hapart, hbusy, hparked, hready, hqueued,
    hdistinct, hmainHas, hpresent⟩ := h
  constructor <;> simp only [Crew.block, Crew.keep, Crew.mark, Has] at *
  all_goals first | assumption | grind

theorem retire (h : c.Tended) (hr : c.running = some b) (hmain : c.main ≠ some b.id)
    {st : TaskStatus} (hst : st.isFinished = true) : (c.retire b st).Tended := by
  obtain ⟨hkeyed, haway, hknown, hruns, hlisted, hapart, hbusy, hparked, hready, hqueued,
    hdistinct, hmainHas, hpresent⟩ := h
  constructor <;> simp only [Crew.retire, Crew.mark, Has] at *
  all_goals first | assumption | grind

/-- The end of a program leaves nobody behind. -/
theorem conclude (h : c.Tended) (b : Badge) (st : TaskStatus) :
    (c.retire b st).disband.Tended := by
  obtain ⟨hkeyed, haway, hknown, hruns, hlisted, hapart, hbusy, hparked, hready, hqueued,
    hdistinct, hmainHas, hpresent⟩ := h
  constructor <;> simp only [Crew.retire, Crew.disband, Crew.mark, Has] at *
  all_goals first | assumption | grind

theorem disband (h : c.Tended) (hr : c.running = none) : c.disband.Tended := by
  obtain ⟨hkeyed, haway, hknown, hruns, hlisted, hapart, hbusy, hparked, hready, hqueued,
    hdistinct, hmainHas, hpresent⟩ := h
  constructor <;> simp only [Crew.disband, Has] at *
  all_goals first | assumption | grind

theorem start (h : c.Tended) (hr : c.running = none) : c.start.Tended := by
  have hfresh := h.fresh
  obtain ⟨hkeyed, haway, hknown, hruns, hlisted, hapart, hbusy, hparked, hready, hqueued,
    hdistinct, hmainHas, hpresent⟩ := (h.disband hr).enlist
  constructor <;> simp only [Crew.start, Crew.disband, Crew.enlist, Crew.reserve, Crew.keep,
    Crew.mark, Has] at *
  all_goals first | assumption | grind

end Tended

/-! ## Waits -/

/-- Where a task stands with its waits. -/
def wait (c : Crew) (id : TaskId) : Option Wait :=
  match c.running with
  | some b =>
    if b.id = id then some ⟨b.epoch, false, b.resume⟩
    else (c.held id).map fun b => ⟨b.epoch, c.status b.handle == .blocked, b.resume⟩
  | none => (c.held id).map fun b => ⟨b.epoch, c.status b.handle == .blocked, b.resume⟩

variable {c : Crew} {b : Badge}

theorem wait_running (hr : c.running = some b) : c.wait b.id = some ⟨b.epoch, false, b.resume⟩ := by
  simp [wait, hr]

/-- Those who are there are in a wait, or between two. -/
theorem wait_ne_none {id : TaskId} : c.wait id ≠ none ↔ c.Has id := by
  simp only [wait, Has]
  split
  · split <;> simp [*]
  · simp [*]

theorem wait_held (h : c.Tended) {id : TaskId} (hb : c.held id = some b) :
    c.wait id = some ⟨b.epoch, c.status b.handle == .blocked, b.resume⟩ := by
  have haway := h.away
  simp only [wait]
  grind

theorem held_of_live {w : Waiter} (hw : c.live w = true) :
    ∃ b, c.held w.task = some b ∧ c.status b.handle = .blocked ∧ b.epoch = w.epoch := by
  unfold live at hw
  split at hw
  · rename_i b hb
    obtain ⟨hst, he⟩ := Bool.and_eq_true_iff.mp hw
    exact ⟨b, hb, beq_iff_eq.mp hst, beq_iff_eq.mp he⟩
  · cases hw

/-- Only a wait that is on has live waiters. -/
theorem live_iff (h : c.Tended) (w : Waiter) :
    c.live w = true ↔ ∃ x, c.wait w.task = some x ∧ x.parked = true ∧ x.number = w.epoch := by
  have haway := h.away
  constructor
  · intro hl
    obtain ⟨b, hb, hst, he⟩ := held_of_live hl
    exact ⟨_, wait_held h hb, beq_iff_eq.mpr hst, he⟩
  · rintro ⟨x, hx, hp, hn⟩
    unfold live
    simp only [wait] at hx
    grind

/-- Who is live can be told from the waits. -/
theorem live_eq (h : c.Tended) : c.live = Wait.live c.wait := by
  funext w
  rw [Bool.eq_iff_iff, live_iff h, Wait.live_iff]

theorem wait_enlist (h : c.Tended) :
    c.enlist.wait = fun id => if id = c.nextId then some ⟨0, false, none⟩ else c.wait id := by
  obtain ⟨hkeyed, haway, hknown, hruns, hlisted, hapart, hbusy, hparked, hready, hqueued,
    hdistinct, hmainHas, hpresent⟩ := h
  funext id
  cases hr : c.running <;> cases hb : c.held id <;>
    simp only [wait, enlist, reserve, keep, mark, hr, hb] <;> grind

/-- Numbers that have not been given out wait for nothing. -/
theorem wait_fresh (h : c.Tended) {id : TaskId} (hid : c.nextId ≤ id) : c.wait id = none := by
  obtain ⟨hkeyed, haway, hknown, hruns, hlisted, hapart, hbusy, hparked, hready, hqueued,
    hdistinct, hmainHas, hpresent⟩ := h
  cases hr : c.running <;> cases hb : c.held id <;> simp only [wait, hr, hb] <;> grind

theorem live_enlist (h : c.Tended) : c.enlist.live = c.live := by
  rw [live_eq h, live_eq h.enlist, wait_enlist h]
  funext w
  unfold Wait.live
  by_cases hw : w.task = c.nextId
  · rw [hw, wait_fresh h (Nat.le_refl _)]
    simp
  · simp [hw]

theorem wake_dead {w : Waiter} (hw : c.live w = false) (r : Resume) : c.wake w r = c := by
  unfold wake
  split
  · rw [hw]
    rfl
  · rfl

theorem nextId_wake (w : Waiter) (r : Resume) : (c.wake w r).nextId = c.nextId := by
  unfold wake
  split
  · split <;> rfl
  · rfl

theorem wait_wake (h : c.Tended) {w : Waiter} (hw : c.live w = true) (r : Resume) :
    (c.wake w r).wait =
      fun id => if id = w.task then some ⟨w.epoch + 1, false, some r⟩ else c.wait id := by
  obtain ⟨a, ha, hst, he⟩ := held_of_live hw
  obtain ⟨hkeyed, haway, hknown, hruns, hlisted, hapart, hbusy, hparked, hready, hqueued,
    hdistinct, hmainHas, hpresent⟩ := h
  funext id
  simp only [wake, ha, hw, if_true]
  cases hr : c.running <;> cases hb : c.held id <;> simp only [wait, keep, mark, hr, hb] <;> grind

theorem wait_resume (hr : c.running = some b) :
    (c.resume b).wait =
      fun id => if id = b.id then some ⟨b.epoch, false, none⟩ else c.wait id := by
  funext id
  simp only [wait, resume]
  grind

theorem wait_dispatch (h : c.Tended) (hr : c.running = none) {queue : List TaskId}
    (hb : c.held b.id = some b) (hq : c.queue = b.id :: queue) :
    (c.dispatch b queue).wait = c.wait := by
  obtain ⟨hkeyed, haway, hknown, hruns, hlisted, hapart, hbusy, hparked, hready, hqueued,
    hdistinct, hmainHas, hpresent⟩ := h
  funext id
  cases hb : c.held id <;> simp only [wait, dispatch, mark, hr, hb] <;> grind

theorem wait_requeue (h : c.Tended) (hr : c.running = some b) (queue : List TaskId) :
    (c.requeue b queue).wait = c.wait := by
  obtain ⟨hkeyed, haway, hknown, hruns, hlisted, hapart, hbusy, hparked, hready, hqueued,
    hdistinct, hmainHas, hpresent⟩ := h
  funext id
  cases hb : c.held id <;> simp only [wait, requeue, keep, mark, hr, hb] <;> grind

theorem wait_block (h : c.Tended) (hr : c.running = some b) :
    (c.block b).wait =
      fun id => if id = b.id then some ⟨b.epoch, true, b.resume⟩ else c.wait id := by
  obtain ⟨hkeyed, haway, hknown, hruns, hlisted, hapart, hbusy, hparked, hready, hqueued,
    hdistinct, hmainHas, hpresent⟩ := h
  funext id
  cases hb : c.held id <;> simp only [wait, block, keep, mark, hr, hb] <;> grind

theorem wait_retire (h : c.Tended) (hr : c.running = some b) (st : TaskStatus) :
    (c.retire b st).wait = fun id => if id = b.id then none else c.wait id := by
  obtain ⟨hkeyed, haway, hknown, hruns, hlisted, hapart, hbusy, hparked, hready, hqueued,
    hdistinct, hmainHas, hpresent⟩ := h
  funext id
  cases hb : c.held id <;> simp only [wait, retire, mark, hr, hb] <;> grind

theorem wait_disband (hr : c.running = none) : c.disband.wait = fun _ => none := by
  funext id
  simp only [wait, disband, hr]
  rfl

end Crew

end TaskVm
