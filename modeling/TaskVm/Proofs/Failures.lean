import TaskVm.Proofs.Changes

/-!
# Failures leave no trace

Builtins change collections in place, and some of them may fail. A program that catches the failure
goes on with the same collections, so that it matters in which order a builtin checks and changes.
Every one of them checks first: up to the last step that can fail the heap has only been read, and
from the first change on nothing can fail any more.

That is a property of a computation that its parts give it one after the other. What only reads may
stand before anything, and behind a change there must be what always succeeds. The arguments
themselves play no part in it, so that it does not matter how they share the collections that are
changed.
-/

namespace TaskVm

/-! ## Computations that fail before they change anything -/

section

variable {ε σ α β : Type} {R : σ → σ → Prop} {s : σ}

/-- When a computation fails, it ends in a related state. -/
structure Spares (R : σ → σ → Prop) (x : EStateM ε σ α) (s : σ) : Prop where
  of_error : ∀ {e s'}, x s = .error e s' → R s s'

/-- A computation does not fail. -/
structure Succeeds (x : EStateM ε σ α) (s : σ) : Prop where
  exists_ok : ∃ a s', x s = .ok a s'

theorem spares_of_leads {x : EStateM ε σ α} (hx : Leads R x s) : Spares R x s where
  of_error herror := by
    rwa [Leads, endState_error herror] at hx

theorem spares_of_succeeds {x : EStateM ε σ α} (hx : Succeeds x s) : Spares R x s where
  of_error herror := by
    obtain ⟨a, s', hok⟩ := hx.exists_ok
    rw [hok] at herror
    cases herror

theorem spares_get_bind {f : σ → EStateM ε σ α} (hf : Spares R (f s) s) :
    Spares R (get >>= f) s := ⟨hf.of_error⟩

/-- Behind what does no harm there may be what fails without doing any. -/
theorem spares_bind [IsPreorder σ R] {x : EStateM ε σ α} {f : α → EStateM ε σ β}
    (hx : Leads R x s) (hf : ∀ a s', x s = .ok a s' → Spares R (f a) s') :
    Spares R (x >>= f) s where
  of_error {e s'} herror := by
    cases h : x s with
    | ok a s₁ =>
      rw [bind_ok h] at herror
      exact trans_of R (hx.of_ok h) ((hf a s₁ h).of_error herror)
    | error e₁ s₁ =>
      rw [bind_error h] at herror
      cases herror
      exact (spares_of_leads hx).of_error h

theorem succeeds_pure (a : α) (s : σ) : Succeeds (pure a : EStateM ε σ α) s := ⟨a, s, rfl⟩

theorem succeeds_set (s' s : σ) : Succeeds (set s' : EStateM ε σ PUnit) s := ⟨⟨⟩, s', rfl⟩

theorem succeeds_modify (f : σ → σ) (s : σ) : Succeeds (modify f : EStateM ε σ PUnit) s :=
  ⟨⟨⟩, f s, rfl⟩

theorem succeeds_bind {x : EStateM ε σ α} {f : α → EStateM ε σ β} (hx : Succeeds x s)
    (hf : ∀ a s', Succeeds (f a) s') : Succeeds (x >>= f) s := by
  obtain ⟨a, s', hx⟩ := hx.exists_ok
  obtain ⟨b, s'', hf⟩ := (hf a s').exists_ok
  exact ⟨b, s'', by rw [bind_ok hx, hf]⟩

/-- Behind what may fail there must be what does not. -/
theorem spares_then {x : EStateM ε σ α} {f : α → EStateM ε σ β} (hx : Spares R x s)
    (hf : ∀ a s', Succeeds (f a) s') : Spares R (x >>= f) s where
  of_error {e s'} herror := by
    cases h : x s with
    | ok a s₁ =>
      obtain ⟨b, s₂, hok⟩ := (hf a s₁).exists_ok
      rw [bind_ok h, hok] at herror
      cases herror
    | error e₁ s₁ =>
      rw [bind_error h] at herror
      cases herror
      exact hx.of_error h

/-- Nothing is spoiled where nothing can fail any more. -/
theorem spares_last {x : EStateM ε σ α} {f : α → EStateM ε σ β} (hx : Succeeds x s)
    (hf : ∀ a s', Succeeds (f a) s') : Spares R (x >>= f) s :=
  spares_of_succeeds (succeeds_bind hx hf)

end

/-! ## Builtins -/

theorem HeapM.reads_ofExcept {α : Type} (x : Except RuntimeError α) (h : Heap) :
    Leads Eq (HeapM.ofExcept x) h := by
  cases x with
  | ok a => exact leads_pure a h
  | error e => exact leads_throw _ h

theorem HeapM.spares_raise {α : Type} (e : RuntimeError) (h : Heap) :
    Spares Eq (HeapM.raise e : HeapM α) h := spares_of_leads (leads_throw _ h)

namespace Builtin

theorem find_reads (g : Heap) (a : ArrayId) (v : Value) (h : Heap) : Leads Eq (find g a v) h := by
  unfold find
  split
  · exact leads_pure _ h
  · exact leads_throw _ h

theorem giveArray_succeeds (items : List Value) (h : Heap) : Succeeds (giveArray items) h :=
  ⟨_, _, rfl⟩

theorem changeArray_succeeds (a : ArrayId) (f : Array Value → Array Value) (h : Heap) :
    Succeeds (changeArray a f) h := succeeds_modify _ h

theorem math_spares (b : Builtin) (f : Number → Number) (v : Value) (h : Heap) :
    Spares Eq (math b f v) h :=
  spares_bind (HeapM.reads_ofExcept _ h) fun _ h _ => spares_of_succeeds (succeeds_pure _ h)

theorem drawInteger_spares (lo hi : Value) (h : Heap) : Spares Eq (drawInteger lo hi) h := by
  unfold drawInteger
  refine spares_bind (HeapM.reads_ofExcept _ h) fun _ h _ => ?_
  refine spares_bind (HeapM.reads_ofExcept _ h) fun _ h _ => spares_get_bind ?_
  dsimp only
  split
  · exact spares_of_leads (leads_throw _ h)
  · exact spares_of_succeeds (succeeds_bind (succeeds_set _ h) fun _ h => succeeds_pure _ h)

theorem cutSlice_spares (args : List Value) (h : Heap) : Spares Eq (cutSlice args) h := by
  unfold cutSlice
  split
  · exact spares_of_leads (leads_throw _ h)
  · split
    · exact spares_of_leads (leads_throw _ h)
    · refine spares_bind (HeapM.reads_ofExcept _ h) fun _ h _ => spares_get_bind ?_
      refine spares_bind (HeapM.reads_ofExcept _ h) fun _ h _ => ?_
      refine spares_bind (HeapM.reads_ofExcept _ h) fun _ h _ => ?_
      exact spares_of_succeeds (giveArray_succeeds _ h)

/-- **A builtin that fails has changed nothing.** -/
theorem apply_spares (b : Builtin) (sink : SinkId) (args : List Value) (h : Heap) :
    Spares Eq (b.apply sink args) h := by
  unfold apply
  split
  all_goals
    repeat' first
      | with_reducible exact spares_of_succeeds (succeeds_pure _ _)
      | with_reducible exact spares_of_succeeds (giveArray_succeeds _ _)
      | with_reducible exact HeapM.spares_raise _ _
      | with_reducible exact math_spares _ _ _ _
      | with_reducible exact drawInteger_spares _ _ _
      | with_reducible exact cutSlice_spares _ _
      | with_reducible exact HeapM.reads_ofExcept _ _
      | with_reducible exact find_reads _ _ _ _
      | with_reducible exact spares_last (changeArray_succeeds _ _ _) fun _ _ => succeeds_pure _ _
      | with_reducible exact spares_last (succeeds_set _ _) fun _ _ => succeeds_pure _ _
      | with_reducible exact spares_last (succeeds_modify _ _) fun _ _ => succeeds_pure _ _
      | with_reducible refine spares_get_bind ?_
      | with_reducible refine spares_bind ?_ fun _ _ _ => ?_
      | split

end Builtin

/-- A builtin as the native that programs call. -/
def Builtin.native (b : Builtin) (sink : SinkId) : Native := ⟨b.name, b.arity, .builtin b sink⟩

/-- So has a call of it, with however many arguments. -/
theorem Native.call_spares (hosts : Array HostFunction) (b : Builtin) (sink : SinkId)
    (args : List Value) (h : Heap) : Spares Eq ((b.native sink).call hosts args) h := by
  have hrun : Spares Eq ((b.native sink).run hosts args) h := Builtin.apply_spares b sink args h
  unfold Native.call
  split
  · split
    · exact hrun
    · exact HeapM.spares_raise _ h
  · exact hrun

/-! ## Instructions -/

/-- The heap is the same. -/
def Turn.SameHeap (s s' : Turn) : Prop := s'.heap = s.heap

instance : IsPreorder Turn Turn.SameHeap where
  refl _ := rfl
  trans _ _ _ hab hbc := hbc.trans hab

namespace Exec

variable (s : Turn)

theorem sameHeap_pop : Leads Turn.SameHeap pop s := by
  cases h : s.task.stack.back? with
  | none => exact leads_of_error (bind_error (onTask_error s (by rw [Task.pop, h])))
  | some v => exact leads_of_ok (pop_ok s h) rfl

theorem sameHeap_ofExcept {α : Type} (x : Except RuntimeError α) :
    Leads Turn.SameHeap (ofExcept x) s := by
  cases x with
  | ok a => exact leads_pure a s
  | error e => exact leads_throw _ s

theorem succeeds_push (v : Value) : Succeeds (push v) s := ⟨⟨⟩, _, push_apply v s⟩

theorem succeeds_modifyTask (f : Task → Task) : Succeeds (modifyTask f) s := ⟨⟨⟩, _, rfl⟩

theorem succeeds_setMap (id : MapId) (m : OrderedMap Value) : Succeeds (setMap id m) s :=
  succeeds_modify _ s

theorem sameHeap_popKey : Leads Turn.SameHeap popKey s :=
  leads_bind (sameHeap_pop s) fun _ s _ => leads_get_bind (leads_pure _ s)

/-- An operation on two operands that fails has at most taken them off the stack. -/
theorem binary_spares (op : Heap → Value → Value → Except RuntimeError Value) :
    Spares Turn.SameHeap (binary op) s := by
  unfold binary
  refine spares_bind (sameHeap_pop s) fun _ s _ => spares_bind (sameHeap_pop s) fun _ s _ => ?_
  refine spares_get_bind (spares_bind (sameHeap_ofExcept s _) fun _ s _ => ?_)
  exact spares_of_succeeds (succeeds_push s _)

theorem ordering_spares (test : Ordering → Bool) : Spares Turn.SameHeap (ordering test) s := by
  unfold ordering
  refine spares_bind (sameHeap_pop s) fun _ s _ => spares_bind (sameHeap_pop s) fun _ s _ => ?_
  refine spares_bind (sameHeap_ofExcept s _) fun _ s _ => ?_
  exact spares_of_succeeds (succeeds_push s _)

end Exec

/-- The opcodes that compute with values: arithmetic and order, indexing, maps, lengths, parts of
strings, and the beginning of an iteration. -/
def Opcode.computes : Opcode → Bool
  | .add | .sub | .mul | .div | .mod | .negate | .greater | .less | .greaterEqual | .lessEqual
  | .concat | .getIndex | .setIndex | .mapGet | .mapSet | .mapDelete | .arrayLen | .substring
  | .iterStart => true
  | _ => false

open Exec in
/-- **An instruction that computes with values and fails has left the heap as it was.** -/
theorem Exec.execute_spares {op : Opcode} (hop : op.computes = true) (s : Turn) :
    Spares Turn.SameHeap (execute op) s := by
  have hdone : ∀ (u : Unit) (s : Turn), Succeeds (pure Flow.next : Exec Flow) s :=
    fun _ s => succeeds_pure _ s
  have hpush : ∀ (v : Value) (s : Turn), Succeeds (do push v; pure Flow.next : Exec Flow) s :=
    fun v s => succeeds_bind (succeeds_push s v) hdone
  cases op <;> unfold execute <;> dsimp only
  case add | sub | mul | div | mod | concat | getIndex =>
    exact spares_then (binary_spares s _) hdone
  case greater | less | greaterEqual | lessEqual => exact spares_then (ordering_spares s _) hdone
  case negate =>
    refine spares_bind (sameHeap_pop s) fun _ s _ => spares_bind (sameHeap_ofExcept s _) ?_
    exact fun v s _ => spares_of_succeeds (hpush v s)
  case arrayLen =>
    refine spares_bind (sameHeap_pop s) fun _ s _ => spares_get_bind ?_
    exact spares_bind (sameHeap_ofExcept s _) fun _ s _ => spares_of_succeeds (hpush _ s)
  case substring =>
    refine spares_bind (sameHeap_pop s) fun _ s _ => spares_bind (sameHeap_pop s) fun _ s _ => ?_
    refine spares_bind (sameHeap_pop s) fun _ s _ => spares_bind (sameHeap_ofExcept s _) ?_
    exact fun v s _ => spares_of_succeeds (hpush v s)
  case iterStart =>
    refine spares_bind (sameHeap_pop s) fun _ s _ => spares_get_bind ?_
    refine spares_bind (sameHeap_ofExcept s _) fun _ s _ => ?_
    exact spares_last (succeeds_modifyTask s _) hdone
  case setIndex =>
    refine spares_bind (sameHeap_pop s) fun _ s _ => spares_bind (sameHeap_pop s) fun _ s _ => ?_
    refine spares_bind (sameHeap_pop s) fun _ s _ => spares_get_bind ?_
    -- The position has been checked when the array is changed.
    refine spares_bind (sameHeap_ofExcept s _) fun _ s _ => ?_
    exact spares_last (succeeds_modify _ s) fun _ s => hpush _ s
  case mapGet =>
    refine spares_bind (sameHeap_popKey s) fun _ s _ => spares_bind (sameHeap_pop s) ?_
    refine fun _ s _ => spares_bind (sameHeap_ofExcept s _) fun _ s _ => spares_get_bind ?_
    exact spares_bind (sameHeap_ofExcept s _) fun _ s _ => spares_of_succeeds (hpush _ s)
  case mapSet =>
    refine spares_bind (sameHeap_pop s) fun _ s _ => spares_bind (sameHeap_popKey s) ?_
    refine fun _ s _ => spares_bind (sameHeap_pop s) fun _ s _ => ?_
    refine spares_bind (sameHeap_ofExcept s _) fun _ s _ => spares_get_bind ?_
    exact spares_last (succeeds_setMap s _ _) fun _ s => hpush _ s
  case mapDelete =>
    refine spares_bind (sameHeap_popKey s) fun _ s _ => spares_bind (sameHeap_pop s) ?_
    refine fun _ s _ => spares_bind (sameHeap_ofExcept s _) fun _ s _ => spares_get_bind ?_
    refine spares_bind (sameHeap_ofExcept s _) fun _ s _ => ?_
    exact spares_last (succeeds_setMap s _ _) fun _ s => hpush _ s
  all_goals cases hop

/-- **A failed operation leaves the heap as it was**: a builtin that is called with any arguments,
and an instruction that computes with values. So all arrays, maps and channels have the contents
that they had, in the same order, and no line has been written. -/
theorem failures_leave_heap :
    (∀ (b : Builtin) (sink : SinkId) (hosts : Array HostFunction) (args : List Value) (h h' : Heap)
      (e : Fault), (b.native sink).call hosts args h = .error e h' → h' = h) ∧
    ∀ (op : Opcode) (s s' : Turn) (e : Fault), op.computes = true →
      Exec.execute op s = .error e s' → s'.heap = s.heap := by
  constructor
  · intro b sink hosts args h h' e herror
    exact ((Native.call_spares hosts b sink args h).of_error herror).symm
  · intro op s s' e hop herror
    exact (Exec.execute_spares hop s).of_error herror

/-- An array of numbers, a string and itself. -/
def medley : Heap where
  arrays := #[#[.number (.ofInt 2), .number (.ofInt 1), .string "s", .array 0]]

theorem medley_left_alone :
    (∃ e h', (Builtin.sort.native 0).call #[] [.array 0] medley = .error e h' ∧ h' = medley) ∧
    (∃ e h', (Builtin.insert.native 0).call #[] [.array 0, .array 0, .nil] medley = .error e h' ∧
      h' = medley) ∧
    ∃ (s s' : Turn) (e : Fault), s.heap = medley ∧
      s.task.stack = #[.array 0, .number (.ofInt 4), .array 0] ∧
      Exec.execute .setIndex s = .error e s' ∧ s'.heap = medley := by
  obtain ⟨hcall, hexecute⟩ := failures_leave_heap
  refine ⟨⟨_, _, rfl, hcall .sort 0 #[] [.array 0] medley _ _ rfl⟩,
    ⟨_, _, rfl, hcall .insert 0 #[] [.array 0, .array 0, .nil] medley _ _ rfl⟩, ?_⟩
  let s : Turn := {
    hosts := #[]
    heap := medley
    vm := { id := 0, sink := 0 }
    task := { id := 0, handle := 0, stack := #[.array 0, .number (.ofInt 4), .array 0] } }
  have hfails : passes (Exec.execute .setIndex) s (fun _ _ => true) = false := by
    decide +kernel
  cases hresult : Exec.execute .setIndex s with
  | ok flow s' => rw [passes, hresult] at hfails; cases hfails
  | error e s' => exact ⟨s, s', e, rfl, rfl, hresult, hexecute .setIndex s s' e rfl hresult⟩

end TaskVm
