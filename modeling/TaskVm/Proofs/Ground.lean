import TaskVm.Proofs.Bystanders

/-!
# Ground

What a call finds below it, and what a handler goes back to, is the lower part of four stacks:
frames, handlers, operands and iterations. Everything later stands on it, and whatever code does
it stays as it is unless something reaches further down than it should, which would be on record.
Only captured variables may change in it.

A ground goes with a frame or with a handler, and is of interest as long as that is there. Both
have numbers that are given out once, so that none of them ever comes back.
-/

namespace TaskVm

open Exec Relation

/-- What a ground is there for: the activation of a frame, or a handler. -/
inductive Owner where
  | frame (activation : Nat)
  | handler (registration : Nat)

/-- It is there. -/
def Owner.On (t : Task) : Owner → Prop
  | .frame activation => ∃ f ∈ t.frames, f.activation = activation
  | .handler registration => ∃ hd ∈ t.handlers, hd.registration = registration

/-- It is there, or has been. -/
def Owner.Given (t : Task) : Owner → Prop
  | .frame activation => activation < t.activations
  | .handler registration => registration < t.registrations

/-- The same iterations, the innermost of which may have moved on. -/
def Iteration.MovedOn : List Iteration → List Iteration → Prop
  | [], now => now = []
  | i :: is, now => ∃ i', now = i' :: is ∧ i'.rest <:+ i.rest

/-- The lower part of the stacks of a task. -/
structure Ground where
  task : TaskId
  owner : Owner
  /-- The innermost frame of those that stand on the ground from the beginning. -/
  frame : Frame
  callers : List Frame
  handlers : List Handler
  stack : Array Value
  iterations : List Iteration
  /-- The slots that may have changed. -/
  written : Nat → Prop

theorem Iteration.MovedOn.length_eq : ∀ {is now : List Iteration}, MovedOn is now →
    now.length = is.length
  | [], _, h => by rw [h]
  | _ :: _, _, ⟨_, h, _⟩ => by rw [h, List.length_cons, List.length_cons]

theorem Iteration.MovedOn.refl : ∀ is : List Iteration, MovedOn is is
  | [] => rfl
  | i :: _ => ⟨i, rfl, List.suffix_refl _⟩

theorem Iteration.next_rest (i : Iteration) : i.next.2.rest <:+ i.rest := by
  unfold Iteration.next
  split
  · exact List.suffix_refl _
  · rename_i v vs h
    rw [h]
    exact List.suffix_cons v vs

namespace Ground

variable {g : Ground}

/-- How many frames stand on the ground from the beginning. -/
def depth (g : Ground) : Nat := g.callers.length + 1

/-! ## The four stacks -/

/-- Other frames have been entered above the ground. -/
def Frames (g : Ground) (fs : List Frame) : Prop :=
  ∃ inner ip, fs = inner ++ { g.frame with ip } :: g.callers ∧
    ∀ f ∈ inner, g.stack.size ≤ f.stackBase ∧ g.iterations.length ≤ f.iterBase

/-- A throw that the handler catches does not go below the ground. -/
structure Covers (g : Ground) (hd : Handler) : Prop where
  frames : g.depth ≤ hd.frameDepth
  stack : g.stack.size ≤ hd.stackDepth
  iterations : g.iterations.length ≤ hd.iterDepth

/-- Other handlers have been registered above the ground. -/
def Handlers (g : Ground) (hds : List Handler) : Prop :=
  ∃ inner, hds = inner ++ g.handlers ∧ ∀ hd ∈ inner, g.Covers hd

/-- What is on the stack below the ground is there, apart from variables. -/
structure Stack (g : Ground) (stack : Array Value) : Prop where
  size : g.stack.size ≤ stack.size
  slots : ∀ slot < g.stack.size, ¬ g.written slot → stack[slot]? = g.stack[slot]?

/-- What the iterations below the ground may have become. A call finds them as they were. -/
def Resumes (g : Ground) (is : List Iteration) : Prop :=
  match g.owner with
  | .frame _ => is = g.iterations
  | .handler _ => Iteration.MovedOn g.iterations is

/-- Other iterations have begun above the ground. -/
def Iterations (g : Ground) (is : List Iteration) : Prop :=
  ∃ inner outer, is = inner ++ outer ∧ g.Resumes outer

/-- A task stands on the ground. -/
structure Bears (g : Ground) (t : Task) : Prop where
  frames : g.Frames t.frames
  handlers : g.Handlers t.handlers
  stack : g.Stack t.stack
  iterations : g.Iterations t.iterations

theorem Frames.depth_le {fs : List Frame} (h : g.Frames fs) : g.depth ≤ fs.length := by
  obtain ⟨inner, ip, rfl, -⟩ := h
  rw [List.length_append]
  exact Nat.le_add_left _ _

theorem Frames.goto {f : Frame} {fs : List Frame} (h : g.Frames (f :: fs)) (ip : Nat) :
    g.Frames ({ f with ip } :: fs) := by
  obtain ⟨inner, ip₀, hfs, hinner⟩ := h
  cases inner with
  | nil =>
    injection hfs with hf hfs
    exact ⟨[], ip, by rw [hf, hfs]; rfl, by simp⟩
  | cons f' inner =>
    injection hfs with hf hfs
    subst hf
    refine ⟨{ f with ip } :: inner, ip₀, by rw [hfs]; rfl, fun f' hf' => ?_⟩
    rcases List.mem_cons.mp hf' with rfl | hf'
    · exact hinner f List.mem_cons_self
    · exact hinner f' (List.mem_cons_of_mem f hf')

theorem Frames.enter {f : Frame} {fs : List Frame} (h : g.Frames fs)
    (hbase : g.stack.size ≤ f.stackBase) (hiter : g.iterations.length ≤ f.iterBase) :
    g.Frames (f :: fs) := by
  obtain ⟨inner, ip, hfs, hinner⟩ := h
  refine ⟨f :: inner, ip, by rw [hfs]; rfl, fun f' hf' => ?_⟩
  rcases List.mem_cons.mp hf' with rfl | hf'
  · exact ⟨hbase, hiter⟩
  · exact hinner f' hf'

/-- Frames above the ground may be left. -/
theorem Frames.cut {fs : List Frame} (h : g.Frames fs) {n : Nat} (hn : g.depth ≤ n) :
    g.Frames (fs.drop (fs.length - n)) := by
  obtain ⟨inner, ip, rfl, hinner⟩ := h
  have hle : (inner ++ { g.frame with ip } :: g.callers).length - n ≤ inner.length := by
    rw [List.length_append, List.length_cons]
    unfold depth at hn
    omega
  rw [List.drop_append_of_le_length hle]
  exact ⟨_, ip, rfl, fun f hf => hinner f (List.mem_of_mem_drop hf)⟩

/-- What is left of the frames down to the ground. -/
theorem Frames.resumes {fs : List Frame} (h : g.Frames fs) :
    ∃ ip, fs.drop (fs.length - g.depth) = { g.frame with ip } :: g.callers := by
  obtain ⟨inner, ip, rfl, -⟩ := h
  refine ⟨ip, ?_⟩
  rw [List.length_append, List.length_cons, depth, Nat.add_sub_cancel, List.drop_left]

theorem Frames.tail {f : Frame} {fs : List Frame} (h : g.Frames (f :: fs))
    (hn : g.depth ≤ fs.length) : g.Frames fs := by
  have hcut := h.cut hn
  rwa [List.length_cons, Nat.add_sub_cancel_left] at hcut

/-- With fewer frames than there were from the beginning, only callers remain. -/
theorem Frames.mem_callers {fs : List Frame} (h : g.Frames fs) {n : Nat} (hn : n < g.depth) :
    ∀ f ∈ fs.drop (fs.length - n), f ∈ g.callers := by
  obtain ⟨inner, ip, rfl, -⟩ := h
  intro f hf
  rw [List.append_cons, List.drop_append, List.drop_eq_nil_of_le, List.nil_append] at hf
  · exact List.mem_of_mem_drop hf
  · unfold depth at hn
    simp only [List.length_append, List.length_cons, List.length_nil]
    omega

theorem Handlers.register {hd : Handler} {hds : List Handler} (h : g.Handlers hds)
    (hc : g.Covers hd) : g.Handlers (hd :: hds) := by
  obtain ⟨inner, hhds, hinner⟩ := h
  refine ⟨hd :: inner, by rw [hhds]; rfl, fun hd' hhd' => ?_⟩
  rcases List.mem_cons.mp hhd' with rfl | hhd'
  · exact hc
  · exact hinner hd' hhd'

/-- A handler above the ground, or one of the ground's own. -/
theorem Handlers.head {hd : Handler} {hds : List Handler} (h : g.Handlers (hd :: hds)) :
    (g.Covers hd ∧ g.Handlers hds) ∨ g.handlers = hd :: hds := by
  obtain ⟨inner, hhds, hinner⟩ := h
  cases inner with
  | nil => exact .inr hhds.symm
  | cons hd' inner =>
    injection hhds with hhd hhds
    subst hhd
    exact .inl ⟨hinner hd List.mem_cons_self, inner, hhds,
      fun hd' hhd' => hinner hd' (List.mem_cons_of_mem hd hhd')⟩

/-- Handlers of frames that stay are not dropped. -/
theorem dropWhile_depth {n : Nat} : ∀ {hds : List Handler}, (∀ hd ∈ hds, hd.frameDepth ≤ n) →
    hds.dropWhile (fun hd => n < hd.frameDepth) = hds
  | [], _ => rfl
  | hd :: _, h => by
    have hle := h hd List.mem_cons_self
    rw [List.dropWhile_cons, if_neg (by simpa using hle)]

/-- A frame above the ground that is left takes its own handlers along. -/
theorem Handlers.leave {hds : List Handler} {n : Nat} (h : g.Handlers hds)
    (hg : ∀ hd ∈ g.handlers, hd.frameDepth ≤ n) :
    g.Handlers (hds.dropWhile fun hd => n < hd.frameDepth) := by
  obtain ⟨inner, rfl, hinner⟩ := h
  have hkeep := dropWhile_depth hg
  have hsub := List.dropWhile_sublist (l := inner) fun hd => n < hd.frameDepth
  rw [List.dropWhile_append]
  split
  · exact ⟨[], by rw [hkeep]; rfl, by simp⟩
  · exact ⟨_, rfl, fun hd hhd => hinner hd (hsub.subset hhd)⟩

theorem Stack.push {stack : Array Value} (h : g.Stack stack) (v : Value) :
    g.Stack (stack.push v) where
  size := by
    rw [Array.size_push]
    exact Nat.le_succ_of_le h.size
  slots slot hslot hw :=
    (Array.getElem?_push_lt (Nat.lt_of_lt_of_le hslot h.size)).trans
      ((Array.getElem?_eq_getElem _).symm.trans (h.slots slot hslot hw))

theorem Stack.append {stack : Array Value} (h : g.Stack stack) (vs : Array Value) :
    g.Stack (stack ++ vs) where
  size := by
    rw [Array.size_append]
    exact Nat.le_add_right_of_le h.size
  slots slot hslot hw := by
    rw [Array.getElem?_append_left (Nat.lt_of_lt_of_le hslot h.size)]
    exact h.slots slot hslot hw

theorem Stack.take {stack : Array Value} {n : Nat} (h : g.Stack stack) (hn : g.stack.size ≤ n) :
    g.Stack (stack.take n) where
  size := by
    rw [Array.take, Array.size_extract, Nat.sub_zero]
    exact Nat.le_min.mpr ⟨hn, h.size⟩
  slots slot hslot hw := by
    rw [Array.take, Array.getElem?_extract, if_pos, Nat.zero_add]
    · exact h.slots slot hslot hw
    · have := h.size
      omega

/-- What is left of the stack down to the ground. -/
theorem Stack.cut {stack : Array Value} (h : g.Stack stack) :
    (stack.take g.stack.size).size = g.stack.size ∧
      ∀ slot < g.stack.size, ¬ g.written slot →
        (stack.take g.stack.size)[slot]? = g.stack[slot]? := by
  have hsize : (stack.take g.stack.size).size = g.stack.size := by
    rw [Array.take, Array.size_extract, Nat.sub_zero]
    exact Nat.min_eq_left h.size
  exact ⟨hsize, (h.take (Nat.le_refl _)).slots⟩

/-- A variable below the ground is changed, or a slot above it. -/
theorem Stack.set {stack : Array Value} {slot : Nat} (h : g.Stack stack)
    (hw : slot < g.stack.size → g.written slot) (v : Value) :
    g.Stack (stack.setIfInBounds slot v) where
  size := by
    rw [Array.size_setIfInBounds]
    exact h.size
  slots j hj hj' := by
    rw [Array.getElem?_setIfInBounds_ne]
    · exact h.slots j hj hj'
    · rintro rfl
      exact hj' (hw hj)

theorem Resumes.length_eq {is : List Iteration} (h : g.Resumes is) :
    is.length = g.iterations.length := by
  unfold Resumes at h
  split at h
  · rw [h]
  · exact h.length_eq

theorem Iterations.begin {is : List Iteration} (h : g.Iterations is) (i : Iteration) :
    g.Iterations (i :: is) := by
  obtain ⟨inner, outer, his, houter⟩ := h
  exact ⟨i :: inner, outer, by rw [his]; rfl, houter⟩

theorem Iterations.length_le {is : List Iteration} (h : g.Iterations is) :
    g.iterations.length ≤ is.length := by
  obtain ⟨inner, outer, rfl, houter⟩ := h
  rw [List.length_append, houter.length_eq]
  exact Nat.le_add_left _ _

/-- Iterations above the ground may be given up. -/
theorem Iterations.cut {is : List Iteration} (h : g.Iterations is) {n : Nat}
    (hn : g.iterations.length ≤ n) : g.Iterations (is.drop (is.length - n)) := by
  obtain ⟨inner, outer, rfl, houter⟩ := h
  have hle : (inner ++ outer).length - n ≤ inner.length := by
    rw [List.length_append, houter.length_eq]
    omega
  rw [List.drop_append_of_le_length hle]
  exact ⟨_, outer, rfl, houter⟩

/-- What is left of the iterations down to the ground. -/
theorem Iterations.resumes {is : List Iteration} (h : g.Iterations is) :
    g.Resumes (is.drop (is.length - g.iterations.length)) := by
  obtain ⟨inner, outer, rfl, houter⟩ := h
  rw [List.length_append, houter.length_eq, Nat.add_sub_cancel, List.drop_left]
  exact houter

theorem Iterations.tail {i : Iteration} {is : List Iteration} (h : g.Iterations (i :: is))
    (hn : g.iterations.length ≤ is.length) : g.Iterations is := by
  have hcut := h.cut hn
  rwa [List.length_cons, Nat.add_sub_cancel_left] at hcut

/-- The innermost iteration may move on if a handler is what the ground is there for, or if
it has begun above the ground. -/
theorem Iterations.moveOn {i i' : Iteration} {is : List Iteration} (h : g.Iterations (i :: is))
    (hi : i'.rest <:+ i.rest)
    (hn : (∃ r, g.owner = .handler r) ∨ g.iterations.length ≤ is.length) :
    g.Iterations (i' :: is) := by
  obtain ⟨inner, outer, his, houter⟩ := h
  cases inner with
  | cons i₀ inner =>
    injection his with _ his
    exact ⟨i' :: inner, outer, by rw [his]; rfl, houter⟩
  | nil =>
    have his : i :: is = outer := his
    subst his
    rcases hn with ⟨r, hr⟩ | hn
    · refine ⟨[], i' :: is, rfl, ?_⟩
      unfold Resumes at houter ⊢
      rw [hr] at houter ⊢
      dsimp only at houter ⊢
      cases hg : g.iterations with
      | nil =>
        rw [hg] at houter
        cases houter
      | cons i₀ is₀ =>
        rw [hg] at houter
        obtain ⟨i₁, heq, hrest⟩ := houter
        injection heq with hi₁ heq
        subst hi₁ heq
        exact ⟨i', rfl, hi.trans hrest⟩
    · have hlength := houter.length_eq
      rw [List.length_cons] at hlength
      omega

/-! ## What a ground relies on -/

/-- The ground of a call: what is there when the frame has been entered. -/
structure UnderCall (g : Ground) (activation : Nat) : Prop where
  owner : g.owner = .frame activation
  frame : g.frame.activation = activation
  base : g.stack.size ≤ g.frame.stackBase
  iterBase : g.iterations.length ≤ g.frame.iterBase
  callers : ∀ f ∈ g.callers, f.activation < activation
  /-- Handlers are those of callers. -/
  handlers : ∀ hd ∈ g.handlers, hd.frameDepth < g.depth ∧ hd.activation < activation

/-- The ground of a handler: what is there when it has been registered. -/
structure UnderTry (g : Ground) (registration : Nat) : Prop where
  owner : g.owner = .handler registration
  nested : ∀ hd ∈ g.handlers, hd.frameDepth ≤ g.depth
  /-- The handler is the innermost. -/
  handler : ∃ hd rest, g.handlers = hd :: rest ∧ hd.registration = registration ∧ g.Covers hd ∧
    ∀ hd' ∈ rest, hd'.registration < registration

/-- A ground to rely on. -/
inductive Firm (g : Ground) : Prop where
  | call {activation : Nat} (h : g.UnderCall activation)
  | handler {registration : Nat} (h : g.UnderTry registration)

end Ground

/-- What a frame reaches into is its own: operands above where its locals begin, an iteration it
has begun, a handler it has registered. -/
def Touch.isOwn : Touch → Bool
  | .operands base height => base ≤ height
  | .iteration base count _ => base < count
  | .handler activation owner => owner = activation
  | .slot _ _ => true

/-- A captured variable is changed where it is on a stack. -/
def Touch.isSlot : Touch → Bool
  | .slot _ _ => true
  | _ => false

/-- As many operands and as many iterations are left alone. -/
def Touch.spares (height count : Nat) : Touch → Bool
  | .operands _ rest => height ≤ rest
  | .iteration _ _ left => count ≤ left
  | .handler _ _ | .slot _ _ => true

namespace Ground

variable {g : Ground} {t : Task} {h : Heap}

/-- What may be reached into. -/
def Spares (g : Ground) (x : Touch) : Prop :=
  match g.owner with
  | .frame _ => x.isOwn = true
  | .handler _ => x.spares g.stack.size g.iterations.length = true

/-- What the task does in its turn leaves the ground alone. -/
structure Minds (g : Ground) (acts : List Act) (touched : List Touch) : Prop where
  spares : ∀ x ∈ touched, g.Spares x
  slots : ∀ slot, .slot g.task slot ∈ touched → g.written slot
  /-- Locals of the frame itself may be below. -/
  locals : ∀ index v, .localSet ⟨g.task, g.frame.activation, index⟩ v ∈ acts →
    g.frame.stackBase + index < g.stack.size → g.written (g.frame.stackBase + index)

theorem Minds.mono {acts acts' : List Act} {touched touched' : List Touch}
    (h : g.Minds acts' touched') (ha : acts ⊆ acts') (ht : touched ⊆ touched') :
    g.Minds acts touched where
  spares x hx := h.spares x (ht hx)
  slots slot hx := h.slots slot (ht hx)
  locals index v hx := h.locals index v (ha hx)

/-- The innermost frame is the one the ground began with, or it has been entered above. -/
theorem Frames.innermost {f : Frame} {fs : List Frame} (hfs : g.Frames (f :: fs)) :
    (f.activation = g.frame.activation ∧ f.stackBase = g.frame.stackBase ∧
      f.iterBase = g.frame.iterBase ∧ fs = g.callers) ∨
    (g.stack.size ≤ f.stackBase ∧ g.iterations.length ≤ f.iterBase ∧ g.depth ≤ fs.length ∧
      ∃ f' ∈ fs, f'.activation = g.frame.activation) := by
  obtain ⟨inner, ip, heq, hinner⟩ := hfs
  cases inner with
  | nil =>
    injection heq with hf hfs
    exact .inl ⟨by rw [hf], by rw [hf], by rw [hf], hfs⟩
  | cons f' inner =>
    injection heq with hf hfs
    subst hf
    obtain ⟨hbase, hiter⟩ := hinner f List.mem_cons_self
    have houter : g.Frames fs :=
      ⟨inner, ip, hfs, fun f' hf' => hinner f' (List.mem_cons_of_mem f hf')⟩
    refine .inr ⟨hbase, hiter, houter.depth_le, { g.frame with ip }, ?_, rfl⟩
    exact hfs ▸ List.mem_append_right inner List.mem_cons_self

theorem Bears.frames_ne (hb : g.Bears t) : ∃ f fs, t.frames = f :: fs := by
  obtain ⟨inner, ip, hfs, -⟩ := hb.frames
  cases inner with
  | nil => exact ⟨_, _, hfs⟩
  | cons f inner => exact ⟨f, _, hfs⟩

/-- During a call all that is a frame's own is above the ground. -/
theorem UnderCall.innermost {a : Nat} (hc : g.UnderCall a) (hb : g.Bears t) (hu : t.Upright h) :
    g.stack.size ≤ t.stackBase ∧ g.iterations.length ≤ t.iterBase ∧ a ≤ t.activation := by
  obtain ⟨f, fs, hf⟩ := hb.frames_ne
  unfold Task.stackBase Task.iterBase Task.activation
  rw [hf]
  dsimp only
  rcases (hf ▸ hb.frames).innermost with ⟨hact, hbase, hiter, -⟩ | ⟨hbase, hiter, -, f', hf', hact⟩
  · rw [hact, hbase, hiter]
    exact ⟨hc.base, hc.iterBase, Nat.le_of_eq hc.frame.symm⟩
  · refine ⟨hbase, hiter, ?_⟩
    have hlt := (List.pairwise_cons.mp (hf ▸ hu.apart)).1 f' hf'
    rw [hact, hc.frame] at hlt
    exact Nat.le_of_lt hlt

theorem Firm.operands (hfirm : g.Firm) (hb : g.Bears t) (hu : t.Upright h) {n : Nat}
    (hx : g.Spares (.operands t.stackBase n)) : g.stack.size ≤ n := by
  unfold Spares at hx
  cases hfirm with
  | call hc =>
    rw [hc.owner] at hx
    exact Nat.le_trans (hc.innermost hb hu).1 (of_decide_eq_true hx)
  | handler hc =>
    rw [hc.owner] at hx
    exact of_decide_eq_true hx

theorem Firm.moveOff (hfirm : g.Firm) (hb : g.Bears t) (hu : t.Upright h) {left : Nat}
    (hleft : t.iterations.length = left + 1)
    (hx : g.Spares (.iteration t.iterBase t.iterations.length left)) :
    g.iterations.length ≤ left := by
  unfold Spares at hx
  cases hfirm with
  | call hc =>
    rw [hc.owner, hleft] at hx
    exact Nat.le_trans (hc.innermost hb hu).2.1 (Nat.le_of_lt_succ (of_decide_eq_true hx))
  | handler hc =>
    rw [hc.owner] at hx
    exact of_decide_eq_true hx

theorem Firm.moveOn (hfirm : g.Firm) (hb : g.Bears t) (hu : t.Upright h) {left : Nat}
    (hleft : t.iterations.length = left + 1)
    (hx : g.Spares (.iteration t.iterBase t.iterations.length (left + 1))) :
    (∃ r, g.owner = .handler r) ∨ g.iterations.length ≤ left := by
  unfold Spares at hx
  cases hfirm with
  | call hc =>
    rw [hc.owner, hleft] at hx
    exact .inr (Nat.le_trans (hc.innermost hb hu).2.1 (Nat.le_of_lt_succ (of_decide_eq_true hx)))
  | handler hc => exact .inl ⟨_, hc.owner⟩

/-- The handler that is dropped is above the ground, or it is the one the ground is there for. -/
theorem Firm.unprotect (hfirm : g.Firm) (hb : g.Bears t) (hu : t.Upright h) {hd : Handler}
    {rest : List Handler} (hh : t.handlers = hd :: rest)
    (hx : hd.frameDepth = t.frames.length ∨ g.Spares (.handler t.activation hd.activation))
    (hon : g.owner.On { t with handlers := rest }) : g.Handlers rest := by
  rcases (hh ▸ hb.handlers).head with ⟨-, hrest⟩ | hg
  · exact hrest
  · exfalso
    cases hfirm with
    | call hc =>
      obtain ⟨hdepth, howner⟩ := hc.handlers hd (hg ▸ List.mem_cons_self)
      rcases hx with hx | hx
      · exact absurd (hx ▸ hdepth) (Nat.not_lt_of_le hb.frames.depth_le)
      · rw [Spares, hc.owner] at hx
        rw [of_decide_eq_true hx] at howner
        exact absurd howner (Nat.not_lt_of_le (hc.innermost hb hu).2.2)
    | handler hc =>
      obtain ⟨hd', rest', hg', -, -, hlt⟩ := hc.handler
      obtain ⟨rfl, rfl⟩ := List.cons.inj (hg.symm.trans hg')
      rw [hc.owner] at hon
      obtain ⟨hd', hhd', heq⟩ := hon
      exact Nat.lt_irrefl _ (heq ▸ hlt hd' hhd')

/-- A handler that is innermost again is the one that was registered, with the same handlers
below it. -/
theorem UnderTry.innermost {r : Nat} (hc : g.UnderTry r) (hb : g.Bears t) (hu : t.Upright h)
    {hd : Handler} {rest : List Handler} (hh : t.handlers = hd :: rest)
    (hr : hd.registration = r) : g.handlers = hd :: rest := by
  obtain ⟨hd₀, rest₀, hg, hr₀, -⟩ := hc.handler
  obtain ⟨inner, hhds, -⟩ := hb.handlers
  cases inner with
  | nil => exact hhds.symm.trans hh
  | cons hd' inner =>
    -- One that is further out has been registered before.
    obtain ⟨rfl, hrest⟩ := List.cons.inj (hh.symm.trans hhds)
    have hmem : hd₀ ∈ rest := hrest ▸ hg ▸ List.mem_append_right inner List.mem_cons_self
    have hlt := (List.pairwise_cons.mp (hh ▸ hu.counted.apart)).1 hd₀ hmem
    rw [hr₀, hr] at hlt
    exact absurd hlt (Nat.lt_irrefl r)

/-- When the frame is left that the ground began with, what it was there for is gone. -/
theorem Firm.gone (hfirm : g.Firm) (hb : g.Bears t) {t' : Task}
    (hframes : t'.frames = g.callers)
    (hhandlers : t'.handlers = t.handlers.dropWhile fun hd => g.callers.length < hd.frameDepth) :
    ¬ g.owner.On t' := by
  intro hon
  cases hfirm with
  | call hc =>
    rw [hc.owner] at hon
    obtain ⟨f, hf, heq⟩ := hon
    exact Nat.lt_irrefl _ (heq ▸ hc.callers f (hframes ▸ hf))
  | handler hc =>
    obtain ⟨hd, rest, hg, -, hcovers, hlt⟩ := hc.handler
    obtain ⟨inner, hhds, hinner⟩ := hb.handlers
    rw [hc.owner] at hon
    obtain ⟨hd', hhd', heq⟩ := hon
    -- All handlers down to the one in question were registered at this depth or further in.
    have hall : ∀ hd' ∈ inner ++ [hd], g.callers.length < hd'.frameDepth := by
      intro hd' hhd'
      rcases List.mem_append.mp hhd' with hhd' | hhd'
      · exact (hinner hd' hhd').frames
      · exact List.mem_singleton.mp hhd' ▸ hcovers.frames
    rw [hhandlers, hhds, hg, List.append_cons, List.dropWhile_append_of_pos (by simpa using hall)]
      at hhd'
    exact Nat.lt_irrefl _ (heq ▸ hlt hd' ((List.dropWhile_sublist _).subset hhd'))

end Ground

/-! ## What the task does -/

theorem Turn.unwind_stacks {s : Turn} {hd : Handler} {rest : List Handler}
    (hh : s.task.handlers = hd :: rest) (v : Value) :
    (s.unwind v).2.task.stack = (s.task.stack.take hd.stackDepth).push v ∧
      (s.unwind v).2.task.iterations =
        s.task.iterations.drop (s.task.iterations.length - hd.iterDepth) ∧
      ∀ f' ∈ (s.unwind v).2.task.frames,
        ∃ f ∈ s.task.frames.drop (s.task.frames.length - hd.frameDepth),
          f.activation = f'.activation := by
  unfold unwind Task.truncateIterations
  rw [hh]
  dsimp only
  split
  · rename_i f callers hf
    refine ⟨rfl, rfl, fun f' hf' => ?_⟩
    rw [hf]
    rcases List.mem_cons.mp hf' with rfl | hf'
    · exact ⟨f, List.mem_cons_self, rfl⟩
    · exact ⟨f', List.mem_cons_of_mem f hf', rfl⟩
  · rename_i hf
    refine ⟨rfl, rfl, fun f' hf' => ?_⟩
    rw [hf] at hf'
    cases hf'

/-- A number is given out once. -/
theorem DeedIn.owners {K : Heap → Heap → Prop} {s s' : Turn} (h : DeedIn K s s') (m : Owner)
    (hm : m.Given s.task) : m.Given s'.task ∧ (m.On s'.task → m.On s.task) := by
  cases h with
  | change h =>
    cases h with
    | @writeCell cell hc v =>
      obtain ⟨cells, tasks, stack, touched, hs⟩ := writeCell_frame s cell v
      rw [hs]
      exact ⟨hm, id⟩
    | @goto f fs hf ip hip =>
      refine ⟨hm, fun hon => ?_⟩
      cases m with
      | handler r => exact hon
      | frame a =>
        obtain ⟨f', hf', heq⟩ := hon
        rcases List.mem_cons.mp hf' with rfl | hf'
        · exact ⟨f, hf ▸ List.mem_cons_self, heq⟩
        · exact ⟨f', hf ▸ List.mem_cons_of_mem f hf', heq⟩
    | protect hf ht =>
      cases m with
      | frame a => exact ⟨hm, id⟩
      | handler r =>
        refine ⟨Nat.lt_succ_of_lt hm, ?_⟩
        rintro ⟨hd, hhd, heq⟩
        rcases List.mem_cons.mp hhd with rfl | hhd
        · exact absurd heq.symm (Nat.ne_of_lt hm)
        · exact ⟨hd, hhd, heq⟩
    | @unprotect hd rest hh | @catchInto hd rest hh =>
      -- Frames and handlers are numbered as they are made, so a new one is never an owner given
      -- before.
      cases m with
      | frame a => exact ⟨hm, id⟩
      | handler r =>
        refine ⟨hm, ?_⟩
        rintro ⟨hd', hhd', heq⟩
        exact ⟨hd', hh ▸ List.mem_cons_of_mem hd hhd', heq⟩
    | enter =>
      cases m with
      | handler r => exact ⟨hm, id⟩
      | frame a =>
        refine ⟨Nat.lt_succ_of_lt hm, ?_⟩
        rintro ⟨f, hf, heq⟩
        rcases List.mem_cons.mp hf with rfl | hf
        · exact absurd heq.symm (Nat.ne_of_lt hm)
        · exact ⟨f, hf, heq⟩
    | @leave f callers hf =>
      cases m with
      | frame a =>
        refine ⟨hm, ?_⟩
        rintro ⟨f', hf', heq⟩
        exact ⟨f', hf ▸ List.mem_cons_of_mem f hf', heq⟩
      | handler r =>
        refine ⟨hm, ?_⟩
        rintro ⟨hd, hhd, heq⟩
        exact ⟨hd, (List.dropWhile_sublist _).subset hhd, heq⟩
    | _ => exact ⟨hm, id⟩
  | unwind hh v =>
    obtain ⟨hhandlers, hactivations, hregistrations⟩ := s.unwind_handlers v
    cases m with
    | frame a =>
      refine ⟨Nat.lt_of_lt_of_eq hm hactivations.symm, ?_⟩
      rintro ⟨f', hf', heq⟩
      obtain ⟨f, hf, hact⟩ := (Turn.unwind_stacks hh v).2.2 f' hf'
      exact ⟨f, List.mem_of_mem_drop hf, hact.trans heq⟩
    | handler r =>
      refine ⟨Nat.lt_of_lt_of_eq hm hregistrations.symm, ?_⟩
      rintro ⟨hd, hhd, heq⟩
      exact ⟨hd, hhandlers ▸ hhd, heq⟩
  | _ => exact ⟨hm, id⟩

theorem owners_of_deeds {K : Heap → Heap → Prop} {s s' : Turn} (h : DeedsIn K s s') (m : Owner)
    (hm : m.Given s.task) : m.Given s'.task ∧ (m.On s'.task → m.On s.task) := by
  induction h with
  | refl => exact ⟨hm, id⟩
  | tail _ hd ih =>
    obtain ⟨hgiven, hback⟩ := hd.owners m ih.1
    exact ⟨hgiven, ih.2 ∘ hback⟩

namespace Ground

variable {g : Ground} {s s' : Turn}

/-- **No instruction takes the ground away** from what it is there for. -/
theorem Bears.change (hfirm : g.Firm) (h : Change s s') (hu : s.task.Upright s.heap)
    (hid : s.task.id = g.task) (hm : g.Minds s'.acts s'.touched) (hon : g.owner.On s'.task)
    (hb : g.Bears s.task) : g.Bears s'.task := by
  obtain ⟨hframes, hhandlers, hstack, hiterations⟩ := hb
  have hb : g.Bears s.task := ⟨hframes, hhandlers, hstack, hiterations⟩
  -- A change that cuts something off notes the cut last.
  have hlast : ∀ {x}, s'.touched = s.touched ++ [x] → g.Spares x := fun heq =>
    hm.spares _ (heq ▸ List.mem_append_right _ List.mem_cons_self)
  cases h with
  | push v => exact ⟨hframes, hhandlers, hstack.push v, hiterations⟩
  | drop hn =>
    exact ⟨hframes, hhandlers, hstack.take (hfirm.operands hb hu (hlast rfl)), hiterations⟩
  | @writeLocal f fs hf index v =>
    refine ⟨hframes, hhandlers, hstack.set (fun hlt => ?_) v, hiterations⟩
    -- The frame's own slots may lie below, where only what it writes itself reaches; the slots of a
    -- frame entered since lie above.
    rcases (hf ▸ hframes).innermost with ⟨hact, hbase, -⟩ | ⟨hbase, -⟩
    · rw [hbase] at hlt ⊢
      refine hm.locals index v ?_ hlt
      rw [← hact, ← hid]
      exact List.mem_append_right _ List.mem_cons_self
    · exact absurd hlt (Nat.not_lt_of_le (Nat.le_add_right_of_le hbase))
  | @writeCell cell hc v =>
    -- Only an open cell of the same task reaches the stack.
    cases hcell : s.heap.cell cell with
    | closed w =>
      rw [writeCell_closed hcell]
      exact hb
    | onStack task slot =>
      rw [writeCell_onStack hcell, setSlotOf] at hm ⊢
      dsimp only at hm ⊢
      split
      · rename_i htask
        rw [if_pos htask] at hm
        refine ⟨hframes, hhandlers, hstack.set (fun _ => hm.slots slot ?_) v, hiterations⟩
        rw [htask, hid]
        exact List.mem_append_right _ List.mem_cons_self
      · split <;> exact hb
  | @goto f fs hf ip hip =>
    exact ⟨(hf ▸ hframes).goto ip, hhandlers, hstack, hiterations⟩
  | iterate i => exact ⟨hframes, hhandlers, hstack, hiterations.begin i⟩
  | @moveOn i is hi =>
    have hlength : s.task.iterations.length = is.length + 1 := by rw [hi, List.length_cons]
    refine ⟨hframes, hhandlers, hstack, (hi ▸ hiterations).moveOn i.next_rest ?_⟩
    exact hfirm.moveOn hb hu hlength (hlast rfl)
  | @moveOff i is hi =>
    have hlength : s.task.iterations.length = is.length + 1 := by rw [hi, List.length_cons]
    refine ⟨hframes, hhandlers, hstack, (hi ▸ hiterations).tail ?_⟩
    exact hfirm.moveOff hb hu hlength (hlast rfl)
  | protect hf ht =>
    refine ⟨hframes, hhandlers.register ?_, hstack, hiterations⟩
    exact ⟨hframes.depth_le, hstack.size, hiterations.length_le⟩
  | unprotect hh hdepth =>
    exact ⟨hframes, hfirm.unprotect hb hu hh (.inl hdepth) hon, hstack, hiterations⟩
  | catchInto hh =>
    exact ⟨hframes, hfirm.unprotect hb hu hh (.inr (hlast rfl)) hon, hstack, hiterations⟩
  | @capture f fs hf slot =>
    rw [endState_ok (captureSlot_apply s (f.stackBase + slot))]
    exact ⟨hframes, hhandlers, hstack, hiterations⟩
  | @enter f hip hf hi locals hl =>
    have hbase := hfirm.operands hb hu (hlast rfl)
    refine ⟨hframes.enter hbase ?_, hhandlers, hstack.append locals, hiterations⟩
    exact hi.symm ▸ hiterations.length_le
  | @leave f callers hf =>
    rcases (hf ▸ hframes).innermost with ⟨-, -, -, hcallers⟩ | ⟨hbase, hiter, hdepth, -⟩
    -- Leaving the owner's own frame would take the owner off the task.
    · subst hcallers
      exact absurd hon (hfirm.gone hb rfl rfl)
    · refine ⟨(hf ▸ hframes).tail hdepth, hhandlers.leave fun hd hhd => ?_, hstack.take hbase,
        hiterations.cut hiter⟩
      refine Nat.le_trans ?_ hdepth
      cases hfirm with
      | call hc => exact Nat.le_of_lt (hc.handlers hd hhd).1
      | handler hc => exact hc.nested hd hhd
  | _ => exact hb

/-- Nor does a throw. -/
theorem Bears.unwind (hfirm : g.Firm) (hu : s.task.Upright s.heap) {hd : Handler}
    {rest : List Handler} (hh : s.task.handlers = hd :: rest) (v : Value)
    (hon : g.owner.On (s.unwind v).2.task) (hb : g.Bears s.task) : g.Bears (s.unwind v).2.task := by
  obtain ⟨hstack, hiterations, hleft⟩ := Turn.unwind_stacks hh v
  have hcovers : g.Covers hd := by
    rcases (hh ▸ hb.handlers).head with ⟨hcovers, -⟩ | hg
    · exact hcovers
    · cases hfirm with
      | handler hc =>
        obtain ⟨hd', rest', hg', -, hcovers, -⟩ := hc.handler
        obtain ⟨rfl, -⟩ := List.cons.inj (hg.symm.trans hg')
        exact hcovers
      | call hc =>
        -- The throw leaves the call, and all frames that remain are callers.
        exfalso
        rw [hc.owner] at hon
        obtain ⟨f', hf', heq⟩ := hon
        obtain ⟨f, hf, hact⟩ := hleft f' hf'
        have hlt := (hc.handlers hd (hg ▸ List.mem_cons_self)).1
        have hmem := hb.frames.mem_callers hlt f hf
        exact Nat.lt_irrefl _ (heq ▸ hact ▸ hc.callers f hmem)
  obtain ⟨-, f, callers, hf, -, hframes⟩ := Turn.unwind_resumes hu hh v
  refine ⟨?_, ?_, ?_, ?_⟩
  · rw [hframes]
    exact (hf ▸ hb.frames.cut hcovers.frames).goto hd.target
  · rw [(s.unwind_handlers v).1]
    exact hb.handlers
  · rw [hstack]
    exact (hb.stack.take hcovers.stack).push v
  · rw [hiterations]
    exact hb.iterations.cut hcovers.iterations

theorem Bears.deed (hfirm : g.Firm) (h : Deed s s') (hu : s.task.Upright s.heap)
    (hid : s.task.id = g.task) (hm : g.Minds s'.acts s'.touched) (hon : g.owner.On s'.task)
    (hb : g.Bears s.task) : g.Bears s'.task := by
  cases h with
  | change h => exact hb.change hfirm h hu hid hm hon
  | unwind hh v => exact hb.unwind hfirm hu hh v hon
  | wake w r =>
    rw [endState_ok (wake_apply s w r)]
    exact hb
  | _ => exact ⟨hb.frames, hb.handlers, hb.stack, hb.iterations⟩

/-- A task stands on the ground as long as what the ground is there for is there. -/
structure Stands (g : Ground) (t : Task) : Prop where
  given : g.owner.Given t
  bears : g.owner.On t → g.Bears t

/-- **In its turn a task stands on the ground**, if it leaves it alone. -/
theorem Stands.deeds (hfirm : g.Firm) (h : Deeds s s') (hu : s.Upright) (ht : s.crew.Tended)
    (hid : s.task.id = g.task) (hm : g.owner.On s.task → g.Minds s'.acts s'.touched)
    (hs : g.Stands s.task) : g.Stands s'.task := by
  induction h with
  | refl => exact hs
  | @tail s₁ s₂ hds hd ih =>
    obtain ⟨hacts, htouched⟩ := hd.records
    have hs₁ := ih fun hon => (hm hon).mono hacts.subset htouched.subset
    obtain ⟨hgiven, hback⟩ := hd.owners g.owner hs₁.given
    refine ⟨hgiven, fun hon => ?_⟩
    have hon₀ := (owners_of_deeds hds g.owner hs.given).2 (hback hon)
    have hid₁ : s₁.task.id = g.task := (attends_of_deeds hds ht).id.trans hid
    exact (hs₁.bears (hback hon)).deed hfirm hd (upright_of_deeds hds hu).running hid₁ (hm hon₀) hon

/-- So it does while others have theirs. -/
theorem Stands.rests {t t' : Task} {written : Nat → Prop} (hs : g.Stands t)
    (h : t.Rests written t') (hw : ∀ slot, written slot → g.written slot) : g.Stands t' := by
  have hon : g.owner.On t' → g.owner.On t := by
    unfold Owner.On
    rw [h.frames, h.handlers]
    exact id
  refine ⟨?_, fun hon' => ?_⟩
  · have hgiven := hs.given
    unfold Owner.Given at hgiven ⊢
    rwa [h.activations, h.registrations]
  · obtain ⟨hframes, hhandlers, hstack, hiterations⟩ := hs.bears (hon hon')
    refine ⟨h.frames ▸ hframes, h.handlers ▸ hhandlers, ⟨?_, fun slot hslot hnot => ?_⟩,
      h.iterations ▸ hiterations⟩
    · exact h.size ▸ hstack.size
    · exact (h.slots slot fun hslot => hnot (hw slot hslot)).trans (hstack.slots slot hslot hnot)

end Ground

/-! ## Runs -/

namespace Machine

variable {ok : Machine → Prop} {m m₀ : Machine} {g : Ground}

/-- The next tick leaves the ground alone. -/
structure Minds (g : Ground) (m : Machine) : Prop where
  own : ∀ t, m.running = some t → t.id = g.task → g.owner.On t →
    g.Minds (m.turn t).advance.2.acts m.touches
  slots : ∀ slot, .slot g.task slot ∈ m.touches → g.written slot

/-- **At any time of any run a task stands on the ground**, if all ticks leave it alone. -/
theorem Run.stands {hist : List Act} (h : Run ok m₀ hist m) (hok : ∀ m, ok m → m.Minds g)
    (hm : m₀.Fit) (hu : m₀.Upright) (hfirm : g.Firm) (hs : m₀.Keeps g.task g.Stands) :
    m.Keeps g.task g.Stands := by
  induction h with
  | refl => exact hs
  | @tail hist acts m m' hrun hmove ih =>
    have hfit := hrun.fit hm
    have hupright := hrun.upright hm hu
    refine hmove.keeps hfit ih (fun hm t hr hid hs => ?_) fun hm t t' hid hrests hs => ?_
    · refine hs.deeds hfirm (Turn.deeds_advance hfit.tame) (hupright.turn hr) (hfit.turn hr) hid
        fun hon => ?_
      have hown := (hok m hm).own t hr hid hon
      rwa [touches_eq hr] at hown
    · exact hs.rests hrests (hok m hm).slots

end Machine

end TaskVm
