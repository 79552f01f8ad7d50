import TaskVm.Proofs.Crew

/-!
# The rota

Who has the turn, who is next and who has to wait. Whatever happens to a machine is one of few
things for its crew. They are listed here once, with the wake-ups that go on record, and what is
said of scheduling is said of each of them.

Those who want a turn stand in a line that only the first leaves. A task whose turn is taken back
has not left it.
-/

namespace TaskVm

namespace Act

/-- The act ends a wait. -/
def isWake : Act → Bool
  | woken _ _ => true
  | _ => false

/-- The act ends a wait of a task. -/
def wakes (id : TaskId) : Act → Bool
  | woken w _ => w.task == id
  | _ => false

/-- Wake-ups of a task are to be found among the wake-ups. -/
theorem filter_wakes (id : TaskId) (acts : List Act) :
    (acts.filter isWake).filter (wakes id) = acts.filter (wakes id) := by
  rw [List.filter_filter]
  refine List.filter_congr fun a _ => ?_
  cases a with
  | woken w r => exact Bool.and_true _
  | _ => rfl

end Act

namespace Crew

variable {c c' : Crew} {b : Badge} {acts : List Act}

/-! ## Within a turn -/

/-- One thing that a turn does to the crew, with the wake-up that goes on record. -/
inductive Step (c : Crew) : List Act → Crew → Prop where
  | reserve : Step c [] c.reserve
  | enlist : Step c [] c.enlist
  | wake {w : Waiter} (hw : c.live w = true) (r : Resume) : Step c [.woken w r] (c.wake w r)
  | resume {b : Badge} (hr : c.running = some b) : Step c [] (c.resume b)

/-- Steps one after the other. -/
inductive Steps (c : Crew) : List Act → Crew → Prop where
  | refl : Steps c [] c
  | tail {acts acts' : List Act} {c₁ c₂ : Crew} (h : Steps c acts c₁) (hs : Step c₁ acts' c₂) :
      Steps c (acts ++ acts') c₂

theorem Step.steps (h : Step c acts c') : Steps c acts c' := Steps.refl.tail h

theorem Steps.trans {acts' : List Act} {c'' : Crew} (h : Steps c acts c')
    (h' : Steps c' acts' c'') : Steps c (acts ++ acts') c'' := by
  induction h' with
  | refl =>
    rw [List.append_nil]
    exact h
  | tail _ hs ih =>
    rw [← List.append_assoc]
    exact ih.tail hs

theorem Step.tended (h : Step c acts c') (hc : c.Tended) : c'.Tended := by
  cases h with
  | reserve => exact hc.reserve
  | enlist => exact hc.enlist
  | wake hw r => exact hc.wake _ r
  | resume hr => exact hc.resume hr

theorem Steps.tended (h : Steps c acts c') (hc : c.Tended) : c'.Tended := by
  induction h with
  | refl => exact hc
  | tail _ hs ih => exact hs.tended ih

/-! ## The end of a turn -/

/-- What becomes of the crew when the running task has done something. -/
inductive Over (c : Crew) : Crew → Prop where
  | goesOn : Over c c
  | yields {b : Badge} (hr : c.running = some b) : Over c (c.requeue b (c.queue ++ [b.id]))
  | blocks {b : Badge} (hr : c.running = some b) (hn : b.resume = none) : Over c (c.block b)
  | retires {b : Badge} (hr : c.running = some b) (hm : c.main ≠ some b.id) {st : TaskStatus}
      (hst : st.isFinished = true) : Over c (c.retire b st)
  /-- With the main task, or with a fatal error, the program is over. -/
  | concludes {b : Badge} (hr : c.running = some b) {st : TaskStatus} (hst : st.isFinished = true) :
      Over c (c.retire b st).disband

/-- One move of a machine, as its crew sees it, with the wake-ups that go on record. -/
inductive Move (c : Crew) : List Act → Crew → Prop where
  | works {acts : List Act} {c₁ c' : Crew} (hr : c.running ≠ none) (h : Steps c acts c₁)
      (ho : Over c₁ c') : Move c acts c'
  | dispatch {b : Badge} {queue : List TaskId} (hr : c.running = none) (hb : c.held b.id = some b)
      (hq : c.queue = b.id :: queue) : Move c [] (c.dispatch b queue)
  /-- Nobody wants a turn. -/
  | deadlock (hr : c.running = none) : Move c [] c.disband
  | pause {b : Badge} (hr : c.running = some b) : Move c [] (c.requeue b (b.id :: c.queue))
  | load (hr : c.running = none) : Move c [] c.start
  | prepare : Move c [] c

/-! ## The queue -/

/-- During a turn others can only join the end of the queue. -/
theorem Steps.line (h : Steps c acts c') :
    (∃ later, c'.queue = c.queue ++ later) ∧
      c'.running.map Badge.id = c.running.map Badge.id := by
  induction h with
  | refl => exact ⟨⟨[], (List.append_nil _).symm⟩, rfl⟩
  | @tail _ _ c₁ c₂ h hs ih =>
    obtain ⟨⟨later, hline⟩, hrun⟩ := ih
    have hstep : (∃ more, c₂.queue = c₁.queue ++ more) ∧
        c₂.running.map Badge.id = c₁.running.map Badge.id := by
      cases hs with
      | reserve => exact ⟨⟨[], (List.append_nil _).symm⟩, rfl⟩
      | enlist => exact ⟨⟨[c₁.nextId], rfl⟩, rfl⟩
      | @wake w hw r =>
        obtain ⟨b, hb, -, -⟩ := held_of_live hw
        refine ⟨⟨[b.id], ?_⟩, ?_⟩ <;> simp only [Crew.wake, hb, hw, if_true, Crew.keep, Crew.mark]
      | resume hr => exact ⟨⟨[], (List.append_nil _).symm⟩, by rw [hr]; rfl⟩
    obtain ⟨⟨more, hmore⟩, hsame⟩ := hstep
    exact ⟨⟨later ++ more, by rw [hmore, hline, List.append_assoc]⟩, hsame.trans hrun⟩

/-- So it is at the end of a turn, as long as the program goes on. -/
theorem Over.line (h : Over c c') (hgo : c'.main ≠ none) :
    (∃ later, c'.queue = c.queue ++ later) ∧
      ∀ b, c'.running = some b → c.running = some b := by
  cases h with
  | goesOn => exact ⟨⟨[], (List.append_nil _).symm⟩, fun _ hb => hb⟩
  | @yields b hr => exact ⟨⟨[b.id], rfl⟩, fun _ hb => nomatch hb⟩
  | blocks hr hn => exact ⟨⟨[], (List.append_nil _).symm⟩, fun _ hb => nomatch hb⟩
  | retires hr hm hst => exact ⟨⟨[], (List.append_nil _).symm⟩, fun _ hb => nomatch hb⟩
  | concludes hr hst => exact absurd rfl hgo

/-! ## Stages of tasks -/

/-- Handles that have not been given out look like those of tasks that have not begun. -/
def Blank (c : Crew) : Prop := ∀ k, c.handles ≤ k → c.status k = .runnable

/-- A task that has come to its end stays as it is, and nobody runs without having the turn.
Whoever is new has a handle that is. -/
structure Settles (c c' : Crew) : Prop where
  blank : c'.Blank
  grows : c.handles ≤ c'.handles
  fresh : ∀ id k, c'.roster id = some k → c.roster id = some k ∨ c.handles ≤ k
  finished : ∀ k, (c.status k).isFinished = true → c'.status k = c.status k
  running : ∀ k, c'.status k = .running → (∃ b, c'.running = some b ∧ b.handle = k) ∨
    c.status k = .running ∧ ∀ b, c.running = some b → b.handle ≠ k

theorem Settles.trans {c'' : Crew} (h : c.Settles c') (h' : c'.Settles c'') : c.Settles c'' where
  blank := h'.blank
  grows := Nat.le_trans h.grows h'.grows
  fresh id k hk := by
    rcases h'.fresh id k hk with hold | hnew
    · exact h.fresh id k hold
    · exact .inr (Nat.le_trans h.grows hnew)
  finished k hk := by
    have hfirst := h.finished k hk
    rw [h'.finished k (hfirst ▸ hk), hfirst]
  running k hk := by
    rcases h'.running k hk with hrun | ⟨hk', hno⟩
    · exact .inl hrun
    · rcases h.running k hk' with ⟨b, hb, hbk⟩ | hold
      · exact absurd hbk (hno b hb)
      · exact .inr hold

theorem Step.settles (h : Step c acts c') (hc : c.Tended) (hb : c.Blank) : c.Settles c' := by
  obtain ⟨hkeyed, haway, hknown, hruns, hlisted, hapart, hbusy, hparked, hready, hqueued,
    hdistinct, hmainHas, hpresent⟩ := hc
  unfold Blank at hb
  cases h with
  | reserve =>
    constructor <;> simp only [Blank, Crew.reserve] <;> grind
  | enlist =>
    constructor <;> simp only [Blank, Crew.enlist, Crew.reserve, Crew.keep, Crew.mark] <;>
      grind [TaskStatus.isFinished]
  | wake hw r =>
    obtain ⟨b, hheld, hst, he⟩ := held_of_live hw
    simp only [Crew.wake, hheld, hw, if_true]
    constructor <;> simp only [Blank, Crew.keep, Crew.mark] <;> grind [TaskStatus.isFinished]
  | resume hr =>
    constructor <;> simp only [Blank, Crew.resume] <;> grind

theorem Settles.refl (hb : c.Blank) : c.Settles c where
  blank := hb
  grows := Nat.le_refl _
  fresh _ _ := .inl
  finished _ _ := rfl
  running k hk := by
    by_cases hrun : ∃ b, c.running = some b ∧ b.handle = k
    · exact .inl hrun
    · exact .inr ⟨hk, fun b hb hbk => hrun ⟨b, hb, hbk⟩⟩

theorem Steps.settles (h : Steps c acts c') (hc : c.Tended) (hb : c.Blank) : c.Settles c' := by
  induction h with
  | refl => exact .refl hb
  | tail h hs ih => exact ih.trans (hs.settles (h.tended hc) ih.blank)

theorem Over.settles (h : Over c c') (hc : c.Tended) (hb : c.Blank) : c.Settles c' := by
  have hsame := Settles.refl hb
  obtain ⟨hkeyed, haway, hknown, hruns, hlisted, hapart, hbusy, hparked, hready, hqueued,
    hdistinct, hmainHas, hpresent⟩ := hc
  unfold Blank at hb
  cases h with
  | goesOn => exact hsame
  | yields hr =>
    constructor <;> simp only [Blank, Crew.requeue, Crew.keep, Crew.mark] <;>
      grind [TaskStatus.isFinished]
  | blocks hr hn =>
    constructor <;> simp only [Blank, Crew.block, Crew.keep, Crew.mark] <;>
      grind [TaskStatus.isFinished]
  | retires hr hm hst =>
    constructor <;> simp only [Blank, Crew.retire, Crew.mark] <;> grind [TaskStatus.isFinished]
  | concludes hr hst =>
    constructor <;> simp only [Blank, Crew.retire, Crew.disband, Crew.mark] <;>
      grind [TaskStatus.isFinished]

/-- **Whatever happens**, who has come to an end has come to an end, and only one runs. -/
theorem Move.settles (h : Move c acts c') (hc : c.Tended) (hb : c.Blank) : c.Settles c' := by
  cases h with
  | works hr h ho => exact (h.settles hc hb).trans (ho.settles (h.tended hc) (h.settles hc hb).blank)
  | prepare => exact .refl hb
  | _ =>
    obtain ⟨hkeyed, haway, hknown, hruns, hlisted, hapart, hbusy, hparked, hready, hqueued,
      hdistinct, hmainHas, hpresent⟩ := hc
    unfold Blank at hb
    constructor <;> simp only [Blank, Crew.dispatch, Crew.disband, Crew.requeue, Crew.start,
      Crew.enlist, Crew.reserve, Crew.keep, Crew.mark] <;> grind [TaskStatus.isFinished]

/-! ## Parked tasks -/

/-- The wait of a parked task has been ended once. -/
structure Roused (b : Badge) (acts : List Act) (c : Crew) (w : Waiter) (r : Resume) : Prop where
  wake : acts.filter (·.wakes b.id) = [.woken w r]
  epoch : w.epoch = b.epoch
  status : c.status b.handle = .runnable

/-- What has become of a parked task: its wait goes on, or has been ended. -/
inductive Bides (b : Badge) (acts : List Act) (c : Crew) (held : Option Badge) : Prop where
  | parked (hn : acts.filter (·.wakes b.id) = []) (hs : c.status b.handle = .blocked)
      (hb : held = some b) : Bides b acts c held
  | roused {w : Waiter} {r : Resume} (h : Roused b acts c w r)
      (hb : held = some { b with epoch := b.epoch + 1, resume := some r }) : Bides b acts c held

theorem Step.bides {acts' : List Act} (h : Step c acts' c') (hc : c.Tended)
    (hb : Bides b acts c (c.held b.id)) : Bides b (acts ++ acts') c' (c'.held b.id) := by
  have hquiet : ∀ {c' : Crew}, c'.status b.handle = c.status b.handle →
      c'.held b.id = c.held b.id → Bides b (acts ++ []) c' (c'.held b.id) := by
    intro c' hs hh
    rw [List.append_nil, hh]
    cases hb with
    | parked hn hst hb => exact .parked hn (hs.trans hst) hb
    | roused h hb => exact .roused ⟨h.wake, h.epoch, hs.trans h.status⟩ hb
  have hheld : ∃ x, c.held b.id = some x ∧ x.handle = b.handle := by
    cases hb with
    | parked hn hst hb => exact ⟨b, hb, rfl⟩
    | roused h hb => exact ⟨_, hb, rfl⟩
  obtain ⟨x, hx, hxh⟩ := hheld
  have hlisted := hc.listed _ _ (hc.known _ _ hx)
  cases h with
  | reserve => exact hquiet rfl rfl
  | enlist =>
    refine hquiet ?_ ?_
    · simp only [Crew.enlist, Crew.reserve, Crew.keep, Crew.mark]
      grind
    · simp only [Crew.enlist, Crew.reserve, Crew.keep, Crew.mark]
      grind
  | resume hr => exact hquiet rfl rfl
  | @wake w hw r =>
    obtain ⟨a, ha, hst, he⟩ := held_of_live hw
    have hknown := hc.known
    have hapart := hc.apart
    have hkeyed := hc.keyed
    by_cases hid : w.task = b.id
    · -- Only a task that is still parked can be woken.
      have hax : a = x := Option.some.inj (ha.symm.trans (hid ▸ hx))
      subst hax
      cases hb with
      | roused h hb =>
        have hrunnable := h.status
        rw [← hxh, hst] at hrunnable
        cases hrunnable
      | parked hn hstb hb =>
        obtain rfl : a = b := Option.some.inj (hx.symm.trans hb)
        refine .roused (w := w) (r := r) ⟨?_, he.symm, ?_⟩ ?_
        · rw [List.filter_append, hn]
          simp [Act.wakes, hid]
        · simp only [Crew.wake, ha, hw, if_true, Crew.keep, Crew.mark]
          grind
        · simp only [Crew.wake, ha, hw, if_true, Crew.keep, Crew.mark]
    · have hne : a.handle ≠ b.handle := by
        intro hh
        exact hid (hapart _ _ _ (hknown _ _ ha) (hh ▸ hxh ▸ hknown _ _ hx))
      have hother : (acts ++ [Act.woken w r]).filter (·.wakes b.id) = acts.filter (·.wakes b.id) := by
        rw [List.filter_append]
        simp [Act.wakes, hid]
      have hsame : (c.wake w r).status b.handle = c.status b.handle := by
        simp only [Crew.wake, ha, hw, if_true, Crew.keep, Crew.mark]
        grind
      have hkeep : (c.wake w r).held b.id = c.held b.id := by
        simp only [Crew.wake, ha, hw, if_true, Crew.keep, Crew.mark]
        grind
      have hend := hquiet hsame hkeep
      rw [List.append_nil] at hend
      cases hend with
      | parked hn hst hb => exact .parked (hother ▸ hn) hst hb
      | roused h hb => exact .roused ⟨hother ▸ h.wake, h.epoch, h.status⟩ hb

theorem Steps.bides (h : Steps c acts c') (hc : c.Tended) (hb : c.held b.id = some b)
    (hs : c.status b.handle = .blocked) : Bides b acts c' (c'.held b.id) := by
  induction h with
  | refl => exact .parked rfl hs hb
  | tail h hs ih => exact hs.bides (h.tended hc) ih

/-- The end of a turn leaves parked tasks as they are, or gives them up. -/
theorem Over.leaves (h : Over c c') (hc : c.Tended) {x : Badge} (hx : c.held b.id = some x)
    (hh : x.handle = b.handle) : c'.status b.handle = c.status b.handle ∧
      ((∀ i, c'.held i = none) ∨ c'.held b.id = c.held b.id) := by
  have hknown := hc.known
  have haway := hc.away
  have hruns := hc.runs
  have hapart := hc.apart
  have hother : ∀ a, c.running = some a → a.id ≠ b.id ∧ a.handle ≠ b.handle := by
    intro a ha
    have hid : a.id ≠ b.id := fun he => by
      rw [← he, haway a ha] at hx
      cases hx
    exact ⟨hid, fun he => hid (hapart _ _ _ (hruns a ha) (he ▸ hh ▸ hknown _ _ hx))⟩
  cases h with
  | goesOn => exact ⟨rfl, .inr rfl⟩
  | yields hr | blocks hr hn =>
    obtain ⟨hid, hhandle⟩ := hother _ hr
    constructor <;> simp only [Crew.requeue, Crew.block, Crew.keep, Crew.mark] <;> grind
  | retires hr hm hst =>
    obtain ⟨hid, hhandle⟩ := hother _ hr
    constructor <;> simp only [Crew.retire, Crew.mark] <;> grind
  | concludes hr hst =>
    obtain ⟨hid, hhandle⟩ := hother _ hr
    constructor <;> simp only [Crew.retire, Crew.disband, Crew.mark] <;> grind

/-- **A wait ends once**, and the number of the next one is the next number. Only the whole
program is given up. -/
theorem Move.bides (h : Move c acts c') (hc : c.Tended) (hb : c.held b.id = some b)
    (hs : c.status b.handle = .blocked) :
    ∃ x, Bides b acts c' x ∧ ((∀ i, c'.held i ≠ none → c.nextId ≤ i) ∨ c'.held b.id = x) := by
  have hparked := hc.parked _ _ hb hs
  have hlisted := hc.listed _ _ (hc.known _ _ hb)
  cases h with
  | @works acts c₁ c' hr h ho =>
    have hbides := h.bides hc hb hs
    have hhandle : ∃ x, c₁.held b.id = some x ∧ x.handle = b.handle := by
      cases hbides with
      | parked hn hst hb => exact ⟨b, hb, rfl⟩
      | roused h hb => exact ⟨_, hb, rfl⟩
    obtain ⟨x, hx, hxh⟩ := hhandle
    obtain ⟨hstatus, hheld⟩ := ho.leaves (h.tended hc) hx hxh
    refine ⟨c₁.held b.id, ?_, hheld.imp_left fun hnone i hi => absurd (hnone i) hi⟩
    cases hbides with
    | parked hn hst hb => exact .parked hn (hstatus.trans hst) hb
    | roused h hb => exact .roused ⟨h.wake, h.epoch, hstatus.trans h.status⟩ hb
  | prepare => exact ⟨some b, .parked rfl hs rfl, .inr hb⟩
  | deadlock hr => exact ⟨some b, .parked rfl hs rfl, .inl fun _ hi => absurd rfl hi⟩
  | dispatch hr ha hq =>
    have hne : b.id ∉ c.queue := hparked.2
    have hknown := hc.known
    have hapart := hc.apart
    refine ⟨some b, .parked rfl ?_ rfl, .inr ?_⟩ <;> simp only [Crew.dispatch, Crew.mark] <;> grind
  | pause hr =>
    obtain ⟨hstatus, hheld⟩ := (Over.yields hr).leaves hc hb rfl
    refine ⟨some b, .parked rfl (hstatus.trans hs) rfl, ?_⟩
    exact hheld.imp (fun hnone i hi => absurd (hnone i) hi) (·.trans hb)
  | load hr =>
    refine ⟨some b, .parked rfl ?_ rfl, .inl ?_⟩ <;>
      simp only [Crew.start, Crew.disband, Crew.enlist, Crew.reserve, Crew.keep, Crew.mark] <;>
      grind

end Crew

end TaskVm
