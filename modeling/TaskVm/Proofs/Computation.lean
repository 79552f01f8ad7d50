import TaskVm.Machine.Run
import Mathlib.Order.Defs.Unbundled

/-!
# Following a computation

What a computation leaves behind is a state, whether it succeeds or fails. This module says
how the state behind a composite computation comes from its parts: by equations, for the
computations whose outcome matters, and by a preorder on states, for those of which it is
enough to know what they cannot do.
-/

namespace TaskVm

variable {ε σ α β : Type}

/-- The state a computation ends in. -/
def endState (x : EStateM ε σ α) (s : σ) : σ :=
  match x s with
  | .ok _ s' => s'
  | .error _ s' => s'

theorem endState_ok {x : EStateM ε σ α} {s s' : σ} {a : α} (h : x s = .ok a s') :
    endState x s = s' := by
  rw [endState, h]

theorem endState_error {x : EStateM ε σ α} {s s' : σ} {e : ε} (h : x s = .error e s') :
    endState x s = s' := by
  rw [endState, h]

/-- A computation succeeds, and its result and the state that it ends in pass a test. -/
def passes (x : EStateM ε σ α) (s : σ) (test : α → σ → Bool) : Bool :=
  match x s with
  | .ok a s' => test a s'
  | .error _ _ => false

theorem of_passes {x : EStateM ε σ α} {s : σ} {test : α → σ → Bool}
    (h : passes x s test = true) : ∃ a s', x s = .ok a s' ∧ test a s' = true := by
  unfold passes at h
  split at h
  · rename_i a s' hx
    exact ⟨a, s', hx, h⟩
  · cases h

/-! ## Equations -/

theorem bind_ok {x : EStateM ε σ α} {f : α → EStateM ε σ β} {s s' : σ} {a : α}
    (h : x s = .ok a s') : (x >>= f) s = f a s' := by
  show EStateM.bind x f s = _
  rw [EStateM.bind, h]

theorem bind_error {x : EStateM ε σ α} {f : α → EStateM ε σ β} {s s' : σ} {e : ε}
    (h : x s = .error e s') : (x >>= f) s = .error e s' := by
  show EStateM.bind x f s = _
  rw [EStateM.bind, h]

theorem endState_bind_ok {x : EStateM ε σ α} {f : α → EStateM ε σ β} {s s' : σ} {a : α}
    (h : x s = .ok a s') : endState (x >>= f) s = endState (f a) s' := by
  rw [endState, bind_ok h, endState]

/-- A sequence succeeds when both parts do. -/
theorem bind_eq_ok {x : EStateM ε σ α} {f : α → EStateM ε σ β} {s s'' : σ} {b : β} :
    (x >>= f) s = .ok b s'' ↔ ∃ a s', x s = .ok a s' ∧ f a s' = .ok b s'' := by
  constructor
  · intro h
    cases hx : x s with
    | ok a s' => exact ⟨a, s', rfl, by rw [← h, bind_ok hx]⟩
    | error e s' =>
      rw [bind_error hx] at h
      cases h
  · rintro ⟨a, s', hx, hf⟩
    rw [bind_ok hx, hf]

/-- A sequence fails when one of its parts does. -/
theorem bind_eq_error {x : EStateM ε σ α} {f : α → EStateM ε σ β} {s s'' : σ} {e : ε} :
    (x >>= f) s = .error e s'' ↔
      x s = .error e s'' ∨ ∃ a s', x s = .ok a s' ∧ f a s' = .error e s'' := by
  constructor
  · intro h
    cases hx : x s with
    | ok a s' => exact .inr ⟨a, s', rfl, by rw [← h, bind_ok hx]⟩
    | error e' s' =>
      rw [bind_error hx] at h
      cases h
      exact .inl rfl
  · rintro (hx | ⟨a, s', hx, hf⟩)
    · exact bind_error hx
    · rw [bind_ok hx, hf]

@[simp] theorem pure_apply (a : α) (s : σ) : (pure a : EStateM ε σ α) s = .ok a s := rfl

@[simp] theorem get_apply (s : σ) : (get : EStateM ε σ σ) s = .ok s s := rfl

@[simp] theorem set_apply (s s' : σ) : (set s' : EStateM ε σ PUnit) s = .ok ⟨⟩ s' := rfl

@[simp] theorem modify_apply (f : σ → σ) (s : σ) :
    (modify f : EStateM ε σ PUnit) s = .ok ⟨⟩ (f s) := rfl

@[simp] theorem throw_apply (e : ε) (s : σ) : (throw e : EStateM ε σ α) s = .error e s := rfl

@[simp] theorem get_bind_apply (f : σ → EStateM ε σ α) (s : σ) : (get >>= f) s = f s s := rfl

@[simp] theorem modify_bind_apply (g : σ → σ) (f : PUnit → EStateM ε σ α) (s : σ) :
    (modify g >>= f) s = f ⟨⟩ (g s) := rfl

@[simp] theorem set_bind_apply (s' : σ) (f : PUnit → EStateM ε σ α) (s : σ) :
    (set s' >>= f) s = f ⟨⟩ s' := rfl

/-! ## What a computation cannot do -/

/-- From a given state, a computation leads to a related one. -/
def Leads (R : σ → σ → Prop) (x : EStateM ε σ α) (s : σ) : Prop := R s (endState x s)

theorem leads_of_ok {R : σ → σ → Prop} {x : EStateM ε σ α} {s s' : σ} {a : α}
    (h : x s = .ok a s') (hr : R s s') : Leads R x s := by
  rw [Leads, endState_ok h]
  exact hr

theorem Leads.of_ok {R : σ → σ → Prop} {x : EStateM ε σ α} {s s' : σ} {a : α}
    (hx : Leads R x s) (h : x s = .ok a s') : R s s' := by
  rw [Leads, endState_ok h] at hx
  exact hx

theorem leads_of_error {R : σ → σ → Prop} [IsPreorder σ R] {x : EStateM ε σ α} {s : σ} {e : ε}
    (h : x s = .error e s) : Leads R x s := by
  rw [Leads, endState_error h]
  exact refl_of R s

/-- A computation that looks at the state goes on from that state. -/
theorem leads_get_bind {R : σ → σ → Prop} {f : σ → EStateM ε σ α} {s : σ}
    (hf : Leads R (f s) s) : Leads R (get >>= f) s := hf

theorem leads_modify {R : σ → σ → Prop} {f : σ → σ} {s : σ} (h : R s (f s)) :
    Leads R (modify f : EStateM ε σ PUnit) s := h

section

variable {R : σ → σ → Prop} [IsPreorder σ R]

theorem leads_pure (a : α) (s : σ) : Leads R (pure a : EStateM ε σ α) s := refl_of R s

theorem leads_throw (e : ε) (s : σ) : Leads R (throw e : EStateM ε σ α) s := refl_of R s

theorem leads_bind {x : EStateM ε σ α} {f : α → EStateM ε σ β} {s : σ} (hx : Leads R x s)
    (hf : ∀ a s', x s = .ok a s' → Leads R (f a) s') : Leads R (x >>= f) s := by
  unfold Leads at hx ⊢
  cases h : x s with
  | ok a s' =>
    rw [endState_ok h] at hx
    rw [endState_bind_ok h]
    exact trans_of R hx (hf a s' h)
  | error e s' =>
    rw [endState_error h] at hx
    rw [endState_error (bind_error h)]
    exact hx

end

end TaskVm
