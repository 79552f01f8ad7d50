import TaskVm.Proofs.Selection

/-!
# Readiness

A channel can be asked whether a send or a receive would have to wait. Asking changes nothing, while
trying skips waiters whose waits are over, and still the answer is that of trying, whatever is in
the channel and whoever counts as live.

A select asks each of its cases, draws one of those that are ready, and tries it. Nothing happens in
between. So a select with a case that is ready neither takes its default nor waits.
-/

namespace TaskVm

open Exec

/-! ## Asking and trying -/

namespace Channel

variable (live : Waiter → Bool) (c : Channel)

theorem trySend_blocks_iff (v : Value) :
    (∃ u, (c.trySend live v).1 = .wouldBlock u) ↔ c.sendReady live = false := by
  rw [sendReady_eq_false]
  rcases c.trySend_cases live v with
    ⟨hclosed, h⟩ | ⟨-, w, rest, -, hline, -, h⟩ | ⟨-, -, hroom, h⟩ | ⟨hopen, hline, hfull, h⟩
  · rw [h, hclosed]
    exact ⟨nofun, nofun⟩
  · rw [h, hline]
    exact ⟨nofun, nofun⟩
  · rw [h]
    exact ⟨nofun, fun hfull => absurd hroom (Nat.not_lt.mpr hfull.2.1)⟩
  · rw [h]
    exact ⟨fun _ => ⟨hopen, hfull, hline⟩, fun _ => ⟨v, rfl⟩⟩

theorem tryReceive_blocks_iff :
    (c.tryReceive live).1 = .wouldBlock ↔ c.receiveReady live = false := by
  rw [receiveReady_eq_false]
  rcases c.tryReceive_cases live with ⟨v, buffer, hbuffer, -, h⟩ |
    ⟨v, buffer, w, u, rest, hbuffer, -, -, -, h⟩ | ⟨w, v, rest, -, -, hline, -, h⟩ |
    ⟨-, -, hclosed, h⟩ | ⟨hempty, hline, hopen, h⟩
  · rw [h, hbuffer]
    exact ⟨nofun, nofun⟩
  · rw [h, hbuffer]
    exact ⟨nofun, nofun⟩
  · rw [h, hline]
    exact ⟨nofun, nofun⟩
  · rw [h, hclosed]
    exact ⟨nofun, nofun⟩
  · rw [h]
    exact ⟨fun _ => ⟨hopen, hempty, hline⟩, fun _ => rfl⟩

/-- A send is ready exactly when it does not block. -/
theorem sendReady_iff (v : Value) :
    c.sendReady live = true ↔ ∀ u, (c.trySend live v).1 ≠ .wouldBlock u := by
  rw [← not_exists, trySend_blocks_iff, Bool.not_eq_false]

/-- A receive is ready exactly when it does not block. -/
theorem receiveReady_iff :
    c.receiveReady live = true ↔ (c.tryReceive live).1 ≠ .wouldBlock := by
  rw [Ne, tryReceive_blocks_iff, Bool.not_eq_false]

end Channel

/-! ## Selecting among ready cases -/

namespace Machine

variable {m : Machine} {task : Task} {cases : List SelectCase} {hasDefault : Bool} {s : Turn}

theorem Selects.completed (h : m.Selects task cases hasDefault s)
    (hready : ∃ case ∈ cases, case.isReady s.heap (liveness s) = true) :
    Completed cases hasDefault s (instruction (m.turn task)) := by
  rw [h.instruction_eq]
  exact select_completed s h.channels hasDefault (s.liveness_eq ▸ hready)

/-- What comes after the instruction, the check of the stack, does not make the task wait. -/
theorem Selects.step_ne_block (h : m.Selects task cases hasDefault s)
    (hready : ∃ case ∈ cases, case.isReady s.heap (liveness s) = true) (s' : Turn) :
    step (m.turn task) ≠ .ok .block s' := by
  intro hstep
  obtain ⟨flow, s₁, hinstruction, hcheck⟩ := bind_eq_ok.mp hstep
  have hcompleted := h.completed hready
  rw [hinstruction] at hcompleted
  cases hcompleted
  rw [get_bind_apply] at hcheck
  split at hcheck <;> cases hcheck

/-- **Readiness is exact.** A channel says that a send or a receive is ready when it does not block,
and only then, whatever its state and whoever is live. A select that finds a case ready draws one of
the ready ones, and this case takes place, unless it is a send on a closed channel; so it is in any
state that a machine can be in. -/
theorem readiness_exact :
    (∀ (live : Waiter → Bool) (c : Channel) (v : Value),
      c.sendReady live = true ↔ ∀ u, (c.trySend live v).1 ≠ .wouldBlock u) ∧
    (∀ (live : Waiter → Bool) (c : Channel),
      c.receiveReady live = true ↔ (c.tryReceive live).1 ≠ .wouldBlock) ∧
    ∀ (m : Machine) (task : Task) (cases : List SelectCase) (hasDefault : Bool) (s : Turn),
      m.Selects task cases hasDefault s →
      (∃ case ∈ cases, case.isReady s.heap (liveness s) = true) →
      Completed cases hasDefault s (instruction (m.turn task)) ∧
        ∀ s', step (m.turn task) ≠ .ok .block s' :=
  ⟨Channel.sendReady_iff, Channel.receiveReady_iff, fun _ _ _ _ _ hselects hready =>
    ⟨hselects.completed hready, hselects.step_ne_block hready⟩⟩

/-- A receive that has to wait, beside a send into a buffer with room, in a select with a
default. -/
def choosy : Heap where
  channels := #[.ofCapacity 0, .ofCapacity 1]
  chunks := #[
    { code := assemble [(.constant, [0, 0]), (.constant, [0, 1]), (.pushTrue, []),
        (.select, [2, 1, 0, 1]), (.ret, [])]
      constants := #[.channel 0, .channel 1] }]

/-- It is the send that takes place, and not the default. -/
theorem choosy_sends : ∃ (m : Machine) (task : Task) (s : Turn),
    m.Selects task [.receive 0, .send 1 (.bool true)] true s ∧
    drawn s [.receive 0, .send 1 (.bool true)] = 1 ∧
    Completed [.receive 0, .send 1 (.bool true)] true s (instruction (m.turn task)) := by
  have hrun : ((tickFor roomy 4 ((create #[] choosy 0 {} {}).load 0).2 []).any fun r =>
      r.2.select?.any fun x =>
        decide (x.2.1 = [.receive 0, .send 1 (.bool true)] ∧ x.2.2.1 = true ∧
          drawn x.2.2.2 x.2.1 = 1) &&
        x.2.1.any fun case => case.isReady x.2.2.2.heap (liveness x.2.2.2)) = true := by
    decide +kernel
  obtain ⟨⟨_, m⟩, -, hselect⟩ := (Option.any_eq_true _ _).mp hrun
  obtain ⟨⟨task, cases, hasDefault, s⟩, hs, hp⟩ := (Option.any_eq_true _ _).mp hselect
  obtain ⟨hknown, hready⟩ := Bool.and_eq_true_iff.mp hp
  obtain ⟨rfl, rfl, hdrawn⟩ := of_decide_eq_true hknown
  have hselects := selects_of_select? hs
  exact ⟨m, task, s, hselects, hdrawn,
    (readiness_exact.2.2 m task _ true s hselects (List.any_eq_true.mp hready)).1⟩

end Machine

end TaskVm
