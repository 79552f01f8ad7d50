import TaskVm.Proofs.Trades
import TaskVm.Proofs.Waiting

/-!
# Whose waiters count

A waiter is in line under the number of its task and of one of the task's waits. It may stay
there long after that wait, but it counts only while the wait is on. A task counts its waits, so
a waiter that counts is one for the operation the task has begun last.

Nothing is said of waiters that other machines have left in the same lines: what a machine knows
is what its own tasks have put on record.
-/

namespace TaskVm

open Exec Relation

namespace Crew

variable {c c' : Crew} {b : Badge} {hist acts : List Act}

/-! ## Handles of others -/

theorem mark_other {k h : HandleId} {st : TaskStatus} (hk : k ≠ h) :
    (c.mark h st).status k = c.status k := if_neg fun heq => hk heq.1

/-- The stages of tasks of other crews are left alone. -/
theorem Step.others (h : Step c acts c') (hc : c.Tended) {k : Nat} (hk : k < c.handles)
    (hn : ∀ id, c.roster id ≠ some k) : c'.status k = c.status k := by
  cases h with
  | reserve | resume hr => rfl
  | enlist => exact mark_other (Nat.ne_of_lt hk)
  | @wake w hw r =>
    obtain ⟨b, hb, -, -⟩ := held_of_live hw
    have hne : k ≠ b.handle := by
      rintro rfl
      exact hn w.task (hc.known _ _ hb)
    simp only [Crew.wake, hb, hw, if_true]
    exact mark_other hne

theorem Steps.others (h : Steps c acts c') (hc : c.Tended) (hb : c.Blank) {k : Nat}
    (hk : k < c.handles) (hn : ∀ id, c.roster id ≠ some k) : c'.status k = c.status k := by
  induction h with
  | refl => rfl
  | tail h hs ih =>
    have hset := h.settles hc hb
    rw [hs.others (h.tended hc) (Nat.lt_of_lt_of_le hk hset.grows) ?_, ih]
    intro id hid
    rcases hset.fresh id k hid with hold | hnew
    · exact hn id hold
    · omega

theorem Over.others (h : Over c c') (hc : c.Tended) {k : Nat}
    (hn : ∀ id, c.roster id ≠ some k) : c'.status k = c.status k := by
  have hmark : ∀ {b : Badge} (st : TaskStatus), c.running = some b →
      (c.mark b.handle st).status k = c.status k := by
    intro b st hr
    refine mark_other ?_
    rintro rfl
    exact hn b.id (hc.runs b hr)
  cases h with
  | goesOn => rfl
  | yields hr => exact hmark .runnable hr
  | blocks hr hno => exact hmark .blocked hr
  | retires hr hm hst => exact hmark _ hr
  | concludes hr hst => exact hmark _ hr

/-- **Whatever a crew does**, the stages of tasks of other crews are left alone. -/
theorem Move.others (h : Move c acts c') (hc : c.Tended) (hb : c.Blank) {k : Nat}
    (hk : k < c.handles) (hn : ∀ id, c.roster id ≠ some k) : c'.status k = c.status k := by
  cases h with
  | works hr h ho =>
    rw [ho.others (h.tended hc) ?_, h.others hc hb hk hn]
    intro id hid
    rcases (h.settles hc hb).fresh id k hid with hold | hnew
    · exact hn id hold
    · omega
  | @dispatch b queue hr hheld hq =>
    refine mark_other ?_
    rintro rfl
    exact hn b.id (hc.known _ _ hheld)
  | deadlock hr | prepare => rfl
  | @pause b hr =>
    refine mark_other ?_
    rintro rfl
    exact hn b.id (hc.runs b hr)
  | load hr => exact mark_other (Nat.ne_of_lt hk)

/-- What others do to the heap leaves a crew in order. -/
theorem Tended.elsewhere {handles : Nat} {status : HandleId → TaskStatus} (h : c.Tended)
    (hgrow : c.handles ≤ handles) (hsame : ∀ id k, c.roster id = some k → status k = c.status k) :
    ({ c with handles, status } : Crew).Tended := by
  have hheld : ∀ id b, c.held id = some b → status b.handle = c.status b.handle := by
    intro id b hb
    exact hsame id b.handle (h.known id b hb)
  have hrun : ∀ b, c.running = some b → status b.handle = c.status b.handle := by
    intro b hb
    exact hsame b.id b.handle (h.runs b hb)
  constructor
  case keyed => exact h.keyed
  case away => exact h.away
  case known => exact h.known
  case runs => exact h.runs
  case listed =>
    intro id k hk
    obtain ⟨hid, hlt⟩ := h.listed id k hk
    exact ⟨hid, Nat.lt_of_lt_of_le hlt hgrow⟩
  case apart => exact h.apart
  case busy => exact fun b hb => (hrun b hb).trans (h.busy b hb)
  case parked => exact fun id b hb hst => h.parked id b hb (hheld id b hb ▸ hst)
  case ready =>
    intro id b hb hst
    have hold := h.ready id b hb (hheld id b hb ▸ hst)
    exact ⟨(hheld id b hb).trans hold.1, hold.2⟩
  case queued => exact h.queued
  case once => exact h.once
  case main => exact h.main
  case present =>
    intro hm id k hk hst
    exact h.present hm id k hk (hsame id k hk ▸ hst)

/-! ## Waiters on record -/

/-- A waiter on record is one of a task whose number has been given out. It is for a wait that
is over, or for the one the task is in, and then for the operation it has begun last. -/
structure Files (c : Crew) (hist : List Act) : Prop where
  early : ∀ k w o, .parked k w o ∈ hist → w.task < c.nextId
  running : ∀ k w o, .parked k w o ∈ hist → ∀ b, c.running = some b → b.id = w.task →
    w.epoch < b.epoch
  held : ∀ k w o, .parked k w o ∈ hist → ∀ b, c.held w.task = some b →
    w.epoch < b.epoch ∨ w.epoch = b.epoch ∧ c.status b.handle = .blocked ∧
      ∃ op, lastBegun w.task hist = some op ∧ ∃ claim ∈ op.claims, claim.channel = k

theorem Step.files (h : Step c acts c') (hc : c.Tended) (hf : c.Files hist) : c'.Files hist := by
  have hlisted := hc.listed
  have hknown := hc.known
  have hapart := hc.apart
  have hkeyed := hc.keyed
  cases h with
  | reserve =>
    exact ⟨fun k w o hp => Nat.lt_succ_of_lt (hf.early k w o hp), hf.running, hf.held⟩
  | enlist =>
    constructor
    case early =>
      intro k w o hp
      exact Nat.lt_succ_of_lt (hf.early k w o hp)
    case running => exact hf.running
    -- Those on file came before the new task, so none of them is the new one.
    case held =>
      intro k w o hp b hb
      have hold : c.held w.task = some b := by
        rwa [← show c.enlist.held w.task = c.held w.task from
          if_neg (Nat.ne_of_lt (hf.early k w o hp))]
      have hhandle := (hlisted _ _ (hknown _ _ hold)).2
      have hst : c.enlist.status b.handle = c.status b.handle := mark_other (Nat.ne_of_lt hhandle)
      rw [hst]
      exact hf.held k w o hp b hold
  | @resume b hr =>
    constructor
    case early => exact hf.early
    case running =>
      intro k w o hp x hx hid
      cases hx
      exact hf.running k w o hp b hr hid
    case held => exact hf.held
  | @wake w' hw r =>
    obtain ⟨a, ha, hst, he⟩ := held_of_live hw
    simp only [Crew.wake, ha, hw, if_true]
    constructor
    case early => exact hf.early
    case running => exact hf.running
    case held =>
      intro k w o hp b hb
      replace hb : (if w.task = a.id then _ else c.held w.task) = some b := hb
      have haid := hkeyed _ _ ha
      -- Waking the task moves it to its next wait, which leaves what is on file behind it.
      by_cases hid : w.task = a.id
      · rw [if_pos hid] at hb
        cases hb
        rw [← haid, ← hid] at ha
        have hold := hf.held k w o hp a ha
        refine .inl ?_
        show w.epoch < a.epoch + 1
        omega
      · rw [if_neg hid] at hb
        have hne : b.handle ≠ a.handle := by
          intro heq
          refine hid (haid ▸ hapart _ _ _ (hknown _ _ hb) ?_)
          rw [heq]
          exact hknown _ _ ha
        have hold := hf.held k w o hp b hb
        rwa [← mark_other hne] at hold

theorem Steps.files (h : Steps c acts c') (hc : c.Tended) (hf : c.Files hist) : c'.Files hist := by
  induction h with
  | refl => exact hf
  | tail h hs ih => exact hs.files (h.tended hc) ih

/-- The task that has the turn is kept, at some stage. Its waits on record are over. -/
theorem Files.keep (hf : c.Files hist) (hc : c.Tended) (hr : c.running = some b)
    (st : TaskStatus) :
    ({ (c.keep b).mark b.handle st with running := none } : Crew).Files hist := by
  have hknown := hc.known
  have hapart := hc.apart
  have hruns := hc.runs b hr
  constructor
  case early => exact hf.early
  case running => simp
  case held =>
    intro k w o hp x hx
    replace hx : (if w.task = b.id then some b else c.held w.task) = some x := hx
    by_cases hid : w.task = b.id
    · rw [if_pos hid] at hx
      cases hx
      exact .inl (hf.running k w o hp b hr hid.symm)
    · rw [if_neg hid] at hx
      have hne : x.handle ≠ b.handle := by
        intro heq
        exact hid (hapart _ _ _ (hknown _ _ hx) (heq ▸ hruns))
      have hold := hf.held k w o hp x hx
      rwa [← mark_other hne] at hold

/-- The task that has the turn is gone. -/
theorem Files.retire (hf : c.Files hist) (hc : c.Tended) (hr : c.running = some b)
    (st : TaskStatus) : (c.retire b st).Files hist := by
  constructor
  case early => exact hf.early
  case running => simp [Crew.retire]
  case held =>
    intro k w o hp x hx
    have hne : x.handle ≠ b.handle := by
      intro heq
      have hid := hc.apart _ _ _ (hc.known _ _ hx) (heq ▸ hc.runs b hr)
      rw [hid] at hx
      cases (hc.away b hr).symm.trans hx
    have hold := hf.held k w o hp x hx
    rwa [← mark_other hne] at hold

/-- Everyone is gone. -/
theorem Files.vacant (hearly : ∀ k w o, .parked k w o ∈ hist → w.task < c.nextId)
    (hr : c.running = none) (hh : ∀ id, id < c.nextId → c.held id = none) : c.Files hist where
  early := hearly
  running k w o hp b hb := by
    rw [hr] at hb
    cases hb
  held k w o hp b hb := by
    rw [hh w.task (hearly k w o hp)] at hb
    cases hb

theorem Over.files (h : Over c c') (hc : c.Tended) (hf : c.Files hist) : c'.Files hist := by
  cases h with
  | goesOn => exact hf
  | yields hr =>
    have hkeep := hf.keep hc hr .runnable
    exact ⟨hkeep.early, hkeep.running, hkeep.held⟩
  | blocks hr hn => exact hf.keep hc hr .blocked
  | retires hr hm hst => exact hf.retire hc hr _
  | concludes hr hst => exact .vacant hf.early rfl fun _ _ => rfl

/-- Only the running task begins operations, and nobody lines up. -/
theorem Files.quiet (hf : c.Files hist) (hp : ∀ a ∈ acts, a.isPark = false)
    (hb : ∀ t op, .began t op ∈ acts → c.held t = none) : c.Files (hist ++ acts) := by
  have hold : ∀ {k w o}, Act.parked k w o ∈ hist ++ acts → .parked k w o ∈ hist := by
    intro k w o hmem
    rcases List.mem_append.mp hmem with hmem | hmem
    · exact hmem
    · cases hp _ hmem
  constructor
  case early => exact fun k w o hmem => hf.early k w o (hold hmem)
  case running => exact fun k w o hmem => hf.running k w o (hold hmem)
  case held =>
    intro k w o hmem b hheld
    rw [Net.lastBegun_append]
    · exact hf.held k w o (hold hmem) b hheld
    · rintro a ha op rfl
      rw [hb _ _ ha] at hheld
      cases hheld

/-- The waits of the others are as they were, and the running task is nobody's who is held. -/
theorem mem_lineUp {op : Operation} {t : TaskId} {e k : Nat} {w : Waiter} {o : Option Value}
    (h : Act.parked k w o ∈ hist ++ .began t op :: op.claims.map (Claim.act t e)) :
    .parked k w o ∈ hist ∨ w.task = t ∧ w.epoch = e ∧ ∃ claim ∈ op.claims, claim.channel = k := by
  rcases List.mem_append.mp h with h | h
  · exact .inl h
  · rcases List.mem_cons.mp h with h | h
    · cases h
    · obtain ⟨claim, hclaim, hact⟩ := List.mem_map.mp h
      cases hact
      exact .inr ⟨rfl, rfl, claim, hclaim, rfl⟩

theorem lastBegun_lineUp {op : Operation} {t t' : TaskId} {e : Nat} :
    lastBegun t' (hist ++ .began t op :: op.claims.map (Claim.act t e)) =
      if t = t' then some op else lastBegun t' hist := by
  have hnone : (op.claims.map (Claim.act t e)).filterMap (·.begun? t') = [] := by
    refine List.filterMap_eq_nil_iff.mpr fun a ha => ?_
    obtain ⟨claim, -, rfl⟩ := List.mem_map.mp ha
    rfl
  rw [lastBegun, List.filterMap_append, List.filterMap_cons, hnone]
  by_cases ht : t = t'
  · simp [Act.begun?, ht]
  · simp only [Act.begun?, if_neg ht, List.append_nil, lastBegun]

/-- The running task lines up and is parked. -/
theorem Files.block (hf : c.Files hist) (hc : c.Tended) (hr : c.running = some b)
    (op : Operation) :
    (c.block b).Files (hist ++ .began b.id op :: op.claims.map (Claim.act b.id b.epoch)) := by
  have hkept := hf.keep hc hr .blocked
  have hhandle := (hc.listed _ _ (hc.runs b hr)).2
  constructor
  case early =>
    intro k w o hp
    rcases mem_lineUp hp with hp | ⟨ht, -, -⟩
    · exact hkept.early k w o hp
    · rw [ht]
      exact (hc.listed _ _ (hc.runs b hr)).1
  case running => simp [Crew.block]
  case held =>
    intro k w o hp x hx
    rw [lastBegun_lineUp]
    by_cases hid : b.id = w.task
    · obtain rfl : b = x := Option.some.inj ((if_pos hid.symm).symm.trans hx)
      rw [if_pos hid]
      rcases mem_lineUp hp with hp | ⟨ht, he, hclaim⟩
      · exact .inl (hf.running k w o hp b hr hid)
      · refine .inr ⟨he, ?_, op, rfl, hclaim⟩
        simp [Crew.block, Crew.keep, Crew.mark, hhandle]
    · rw [if_neg hid]
      rcases mem_lineUp hp with hp | ⟨ht, -, -⟩
      · exact hkept.held k w o hp x hx
      · exact absurd ht.symm hid

/-- The running task has lined up, and is gone. -/
theorem Files.fail (hf : c.Files hist) (hc : c.Tended) (hr : c.running = some b)
    (op : Operation) (st : TaskStatus) :
    (c.retire b st).Files (hist ++ .began b.id op :: op.claims.map (Claim.act b.id b.epoch)) := by
  have hgone := hf.retire hc hr st
  have hids := (hc.listed _ _ (hc.runs b hr)).1
  have haway : (c.retire b st).held b.id = none := hc.away b hr
  constructor
  case early =>
    intro k w o hp
    rcases mem_lineUp hp with hp | ⟨ht, -, -⟩
    · exact hgone.early k w o hp
    · rw [ht]
      exact hids
  case running => simp [Crew.retire]
  case held =>
    intro k w o hp x hx
    rw [lastBegun_lineUp]
    by_cases hid : b.id = w.task
    · rw [← hid, haway] at hx
      cases hx
    · rw [if_neg hid]
      rcases mem_lineUp hp with hp | ⟨ht, -, -⟩
      · exact hgone.held k w o hp x hx
      · exact absurd ht.symm hid

/-- **Whatever a crew does** leaves what is on record of waiters true. -/
theorem Move.files (h : Move c acts c') (hc : c.Tended) (hf : c.Files hist) : c'.Files hist := by
  cases h with
  | works hr h ho => exact ho.files (h.tended hc) (h.files hc hf)
  | @dispatch b queue hr hheld hq =>
    have hknown := hc.known
    have hapart := hc.apart
    have hid := hc.keyed _ _ hheld
    constructor
    case early => exact hf.early
    case running =>
      intro k w o hp x hx htask
      cases hx
      rcases hf.held k w o hp b (htask ▸ hheld) with hlt | ⟨-, hst, -⟩
      · exact hlt
      · -- Who is queued is not parked.
        have hqueued := (hc.parked _ _ hheld hst).2
        rw [hq] at hqueued
        exact absurd List.mem_cons_self hqueued
    case held =>
      intro k w o hp x hx
      replace hx : (if w.task = b.id then none else c.held w.task) = some x := hx
      by_cases htask : w.task = b.id
      · rw [if_pos htask] at hx
        cases hx
      · rw [if_neg htask] at hx
        have hne : x.handle ≠ b.handle := by
          intro heq
          exact htask (hapart _ _ _ (hknown _ _ hx) (heq ▸ hknown _ _ hheld))
        have hold := hf.held k w o hp x hx
        rwa [← mark_other hne] at hold
  | deadlock hr => exact .vacant hf.early hr fun _ _ => rfl
  | @pause b hr =>
    have hkeep := hf.keep hc hr .runnable
    exact ⟨hkeep.early, hkeep.running, hkeep.held⟩
  | load hr =>
    constructor
    case early => exact fun k w o hp => Nat.lt_succ_of_lt (hf.early k w o hp)
    case running => exact hf.running
    case held =>
      intro k w o hp x hx
      replace hx : (if w.task = c.nextId then _ else none) = some x := hx
      rw [if_neg (Nat.ne_of_lt (hf.early k w o hp))] at hx
      cases hx
  | prepare => exact hf

end Crew

namespace Machine

variable {ok : Machine → Prop} {m m' m₀ : Machine} {task : Task} {hist acts : List Act}

/-! ## Ticks -/

theorem isExchange_of_channel? {a : Act} {k : ChannelId} (hc : a.channel? = some k)
    (hp : a.isPark = false) : a.isExchange = true := by
  cases a <;> simp_all [Act.channel?, Act.isPark, Act.isExchange]

theorem crew_turn (hr : m.running = some task) : (m.turn task).crew = m.crew :=
  congrArg crew (ofTurn_turn hr)

/-- Who has lined up and failed is gone. -/
theorem files_failed {s : Turn} (hs : s.crew.Tended) (hf : s.crew.Files hist) (op : Operation)
    {failure : Failure} {outcome : Option Outcome} (h : s.Over (.failed failure) m outcome) :
    m.crew.Files
      (hist ++ .began s.task.id op :: op.claims.map (Claim.act s.task.id s.task.waitEpoch)) := by
  have hfail := fun st => hf.fail hs (b := s.task.badge) rfl op st
  cases h with
  | retires => exact s.retire_crew _ ▸ hfail _
  | concludes =>
    rw [crew_shutdown, s.retire_crew]
    exact .vacant (hfail .failed).early rfl fun _ _ => rfl

/-- What a tick does to lines, whom it wakes, and what goes on record of those who line up. -/
structure Accounts (m : Machine) (acts : List Act) (m' : Machine) : Prop where
  files : ∀ hist, m.crew.Files hist → m'.crew.Files (hist ++ acts)
  lines : ∀ i, ∀ w ∈ (m'.heap.channel i).waiters, w ∈ (m.heap.channel i).waiters ∨
    ∃ o, .parked i w o ∈ acts
  wakes : ∀ w r, .woken w r ∈ acts → m.crew.live w = true ∧
    ∃ i, w ∈ (m.heap.channel i).waiters ∧ ∃ a ∈ acts, a.isExchange = true ∧ a.channel? = some i

/-- Nothing has happened to channels. -/
theorem Accounts.idle (hm : m.Fit) (hc : m.crew.Move acts m'.crew)
    (hl : ∀ i, ∀ w ∈ (m'.heap.channel i).waiters, w ∈ (m.heap.channel i).waiters) :
    m.Accounts [] m' where
  files hist hf := (List.append_nil hist).symm ▸ hc.files hm.tended hf
  lines i w hw := .inl (hl i w hw)
  wakes _ _ hmem := nomatch hmem

/-- That tasks are gone may come behind. -/
theorem Accounts.ending (h : m.Accounts acts m') (m₁ m₂ : Machine) :
    m.Accounts (acts ++ m₁.endings m₂) m' := by
  have hended : ∀ a ∈ m₁.endings m₂, ∃ id, a = .ended id := by
    intro a ha
    obtain ⟨id, -, rfl⟩ := List.mem_map.mp ha
    exact ⟨id, rfl⟩
  constructor
  case files =>
    intro hist hf
    rw [← List.append_assoc]
    refine (h.files hist hf).quiet ?_ ?_
    · intro a hmem
      obtain ⟨id, rfl⟩ := hended a hmem
      rfl
    · intro t op hmem
      obtain ⟨id, hid⟩ := hended _ hmem
      cases hid
  case lines =>
    intro i w hw
    rcases h.lines i w hw with hw | ⟨o, ho⟩
    · exact .inl hw
    · exact .inr ⟨o, List.mem_append_left _ ho⟩
  case wakes =>
    intro w r hmem
    rcases List.mem_append.mp hmem with hmem | hmem
    · obtain ⟨hlive, i, hi, a, ha, hx⟩ := h.wakes w r hmem
      exact ⟨hlive, i, hi, a, List.mem_append_left _ ha, hx⟩
    · obtain ⟨id, hid⟩ := hended _ hmem
      cases hid

/-- Before its end a turn in which nobody lines up leaves what is on record true. -/
theorem files_trading {s : Turn} (ht : (m.turn task).Trading s) (hf : s.crew.Files hist) :
    s.crew.Files (hist ++ s.acts) := by
  obtain ⟨acts, ha, hpark, hbegan, -⟩ := ht.acts
  replace ha : s.acts = acts := ha
  subst ha
  refine hf.quiet hpark fun t op hmem => ?_
  have haway : s.crew.held s.task.id = none := ht.tended.away s.task.badge rfl
  rwa [hbegan t op hmem, ← ht.id]

theorem wakes_trading {s : Turn} (hr : m.running = some task) (ht : (m.turn task).Trading s)
    {w : Waiter} {r : Resume} (hmem : .woken w r ∈ s.acts) : m.crew.live w = true ∧
      ∃ i, w ∈ (m.heap.channel i).waiters ∧
        ∃ a ∈ s.acts, a.isExchange = true ∧ a.channel? = some i := by
  obtain ⟨acts, ha, hpark, -, hwoken⟩ := ht.acts
  replace ha : s.acts = acts := ha
  subst ha
  obtain ⟨hlive, i, hi, a, hin, hc⟩ := hwoken w r hmem
  rw [crew_turn hr] at hlive
  exact ⟨hlive, i, hi, a, hin, isExchange_of_channel? hc (hpark a hin), hc⟩

theorem lines_lineUp {s₁ s : Turn} {op : Operation} (ht : (m.turn task).Trading s₁)
    (hl : s₁.LinesUp op s) {i : ChannelId} {w : Waiter} (hw : w ∈ (s.heap.channel i).waiters) :
    w ∈ (m.heap.channel i).waiters ∨ ∃ o, .parked i w o ∈ s.acts := by
  rcases hl.lines i w hw with hw | ⟨k, hk, rfl, rfl⟩
  · exact .inl (ht.lines i w hw)
  · refine .inr ⟨k.offer, ?_⟩
    rw [hl.acts]
    exact List.mem_append_right _ (List.mem_cons_of_mem _ (List.mem_map_of_mem hk))

theorem wakes_lineUp {s₁ s : Turn} {op : Operation} (hr : m.running = some task)
    (ht : (m.turn task).Trading s₁) (hl : s₁.LinesUp op s) {w : Waiter} {r : Resume}
    (hmem : .woken w r ∈ s.acts) : m.crew.live w = true ∧
      ∃ i, w ∈ (m.heap.channel i).waiters ∧
        ∃ a ∈ s.acts, a.isExchange = true ∧ a.channel? = some i := by
  rw [hl.acts] at hmem ⊢
  rcases List.mem_append.mp hmem with hmem | hmem
  · obtain ⟨hlive, i, hi, a, ha, hx, hc⟩ := wakes_trading hr ht hmem
    exact ⟨hlive, i, hi, a, List.mem_append_left _ ha, hx, hc⟩
  · rcases List.mem_cons.mp hmem with hmem | hmem
    · cases hmem
    · obtain ⟨k, -, hk⟩ := List.mem_map.mp hmem
      cases hk

/-- **What a tick does to lines**, with a turn or without. -/
theorem tick_accounts (hm : m.Fit) (hroomy : m.roomy = true)
    (hend : m.tick.outcome ≠ some .endless) : m.Accounts m.tick.acts m.tick.machine := by
  cases hr : m.running with
  | none =>
    have hmove : Move (fun _ => True) m _ m.tick.machine := .tick trivial hend
    rw [tick_between hr, dispatch_acts] at hmove ⊢
    refine .idle hm (hmove.crew hm) fun i w hw => ?_
    rw [Heap.channel, m.dispatch_resettles.channels] at hw
    exact hw
  | some task =>
    have hbegin := crew_turn hr
    have hdoes : (m.turn task).Does (m.turn task).advance.1 (m.turn task).advance.2 :=
      Turn.advance_does hm.tame
    have hnone := Turn.advance_resume (s := m.turn task) hm.tame
    obtain ⟨acts, -, hsteps⟩ := steps_of_deeds (Turn.deeds_advance hm.tame) (hm.turn hr)
    have htended := hsteps.tended (hm.turn hr)
    have hfiles : ∀ hist, m.crew.Files hist → (m.turn task).advance.2.crew.Files hist :=
      fun hist hf => hsteps.files (hm.turn hr) (hbegin.symm ▸ hf)
    have hstrands : (m.turn task).strands = false := by
      have hnot := (Bool.not_eq_true' _).mp hroomy
      rwa [strands, hr] at hnot
    cases ha : (m.turn task).advance with
    | mk o s =>
      rw [ha] at hdoes hnone htended hfiles
      -- Who lines up ends the turn by it, so that its own waiters are the last on record.
      cases hdoes with
      | strands h hl h' ho hs =>
        rw [hstrands] at hs
        cases hs
      | goes h hb =>
        have ht := h (hm.turn hr)
        have hquiet := fun hist hf => files_trading ht (hfiles hist hf)
        cases o with
        | none =>
          rw [tick_goes hr ha]
          exact ⟨hquiet, fun i w hw => .inl (ht.lines i w hw), fun w r => wakes_trading hr ht⟩
        | some o =>
          rw [tick_ends hr ha] at hend ⊢
          have hover := (s.over_endTurn o).crew hnone (by rintro rfl; exact hend rfl)
          refine ⟨fun hist hf => hover.files htended (hquiet hist hf), fun i w hw => .inl ?_,
            fun w r => wakes_trading hr ht⟩
          rw [Heap.channel, (s.over_endTurn _).resettles.channels] at hw
          exact ht.lines i w hw
      | @waits s₁ _ op h hl =>
        have ht := h (hm.turn hr)
        rw [tick_ends hr ha]
        refine ⟨fun hist hf => ?_, fun i w hw => lines_lineUp ht hl hw,
          fun w r => wakes_lineUp hr ht hl⟩
        have hfiled := files_trading ht (hl.crew ▸ hfiles hist hf)
        have hblock := hfiled.block ht.tended (b := s₁.task.badge) rfl op
        show s.park.crew.Files (hist ++ s.acts)
        rw [s.park_crew, hl.crew, hl.task, hl.acts, ← List.append_assoc]
        exact hblock
      | @fails s₁ s₂ op h hl events failure =>
        have ht := h (hm.turn hr)
        rw [tick_ends hr ha]
        refine ⟨fun hist hf => ?_, fun i w hw => ?_, fun w r => wakes_lineUp hr ht hl⟩
        · have hfiled := files_trading ht (hl.crew ▸ hfiles hist hf)
          have hfiled₂ : s₂.crew.Files (hist ++ s₁.acts) := hl.crew.symm ▸ hfiled
          have hfail := files_failed (s := { s₂ with events }) htended hfiled₂ op
            (Turn.over_endTurn _ (.failed failure))
          rw [show s₂.acts = _ from hl.acts, ← List.append_assoc, ← hl.task]
          exact hfail
        · rw [Heap.channel, (Turn.over_endTurn _ _).resettles.channels] at hw
          exact lines_lineUp ht hl hw

/-- **What is on record of waiters stays true** whatever happens to a machine, and only those
who are on record get into lines. -/
theorem Move.accounts (hok : ∀ m, ok m → m.roomy = true) (h : Move ok m acts m') (hm : m.Fit) :
    m.Accounts acts m' := by
  have hmove := h.crew hm
  cases h with
  | tick hokm hend => exact (tick_accounts hm (hok m hokm) hend).ending _ _
  | pause =>
    refine .idle hm hmove fun i w hw => ?_
    rw [Heap.channel, m.pause_resettles.channels] at hw
    exact hw
  | load hr chunk =>
    refine Accounts.ending (.idle hm hmove fun i w hw => ?_) _ _
    rw [show ((m.load chunk).2.heap.channel i) = m.shutdown.heap.channel i from rfl,
      Heap.channel, m.shutdown_resettles.channels] at hw
    exact hw
  | prepare hh he hv hr =>
    refine .idle hm hmove fun i w hw => ?_
    obtain ⟨fresh, hfresh, hnew⟩ := he.channels
    exact Heap.mem_append_channels hfresh hnew hw

end Machine

end TaskVm
