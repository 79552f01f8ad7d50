import TaskVm.Proofs.Deeds

/-!
# Boxes

Variables that closures share are easily described: each has a box, from the moment it is
first captured, and whoever reads or changes it looks into the box. That is the machine of
this module. It knows neither stacks nor frames, and a box is never moved.

The real machine leaves a captured variable on the stack of its task for as long as the frame
is there, has a cell point at it, and moves its value into the cell when the frame is left.
What is said here is when such a machine holds what the boxes hold. For every step that
concerns variables there is one lemma that it still does.
-/

namespace TaskVm

open Exec Relation

/-- Boxes with their contents, and the variables they belong to. -/
structure Boxes where
  box : Variable → Option CellId := fun _ => none
  contents : Array Value := #[]

namespace Boxes

variable {b : Boxes}

/-- The boxes of some cells that belong to no variables. -/
def ofCells (cells : Array Cell) : Boxes where
  contents := cells.map fun
    | .closed v => v
    | .onStack _ _ => .nil

/-- The act agrees with the boxes. A variable has a box or gets the next one, and whatever is
read is what the box holds. -/
def Allows (b : Boxes) : Act → Prop
  | .captured x v c =>
    match b.box x with
    | some d => c = d ∧ b.contents[c]? = some v
    | none => c = b.contents.size
  | .localRead x v => ∀ c, b.box x = some c → b.contents[c]? = some v
  | .cellRead c v => b.contents[c]? = some v
  | .cellSet c _ => c < b.contents.size
  | _ => True

/-- Change what a box holds. -/
def put (b : Boxes) (c : CellId) (v : Value) : Boxes :=
  { b with contents := b.contents.setIfInBounds c v }

/-- Give a variable a box of its own. -/
def allot (b : Boxes) (x : Variable) (v : Value) : Boxes where
  box y := if y = x then some b.contents.size else b.box y
  contents := b.contents.push v

/-- What an act does to the boxes. -/
def after (b : Boxes) : Act → Boxes
  | .captured x v _ =>
    match b.box x with
    | some _ => b
    | none => b.allot x v
  | .localSet x v =>
    match b.box x with
    | some c => b.put c v
    | none => b
  | .cellSet c v => b.put c v
  | _ => b

/-- What a history does to the boxes. -/
def replay (b : Boxes) (acts : List Act) : Boxes := acts.foldl after b

/-- Each act of a history agrees with the boxes at its time. -/
def Explains : Boxes → List Act → Prop
  | _, [] => True
  | b, a :: acts => b.Allows a ∧ (b.after a).Explains acts

theorem replay_append (b : Boxes) (acts acts' : List Act) :
    b.replay (acts ++ acts') = (b.replay acts).replay acts' := List.foldl_append

theorem explains_append : ∀ {acts acts' : List Act} {b : Boxes}, b.Explains acts →
    (b.replay acts).Explains acts' → b.Explains (acts ++ acts')
  | [], _, _, _, h' => h'
  | _ :: _, _, _, h, h' => ⟨h.1, explains_append h.2 h'⟩

theorem box_allot {x y : Variable} {v : Value} {c : CellId} (h : (b.allot x v).box y = some c) :
    (y = x ∧ c = b.contents.size) ∨ (y ≠ x ∧ b.box y = some c) := by
  unfold allot at h
  dsimp only at h
  split at h
  · exact .inl ⟨by assumption, (Option.some.inj h).symm⟩
  · exact .inr ⟨by assumption, h⟩

/-- Giving a variable a box takes no other variable's away. -/
theorem box_allot_of {x y : Variable} {v : Value} {c : CellId} (hx : b.box x = none)
    (hy : b.box y = some c) : (b.allot x v).box y = some c := by
  have hne : y ≠ x := by
    rintro rfl
    rw [hx] at hy
    cases hy
  exact (if_neg hne).trans hy

theorem contents_allot {c : CellId} (hc : c < b.contents.size) (x : Variable) (v : Value) :
    (b.allot x v).contents[c]? = b.contents[c]? :=
  (Array.getElem?_push_lt hc).trans (Array.getElem?_eq_getElem hc).symm

/-- A variable keeps its box. -/
theorem box_after {x : Variable} {c : CellId} (h : b.box x = some c) (a : Act) :
    (b.after a).box x = some c := by
  unfold after
  split
  · rename_i y v d
    split
    · exact h
    · rename_i hy
      exact box_allot_of hy h
  · split
    · exact h
    · exact h
  · exact h
  · exact h

theorem box_replay {x : Variable} {c : CellId} : ∀ (acts : List Act) {b : Boxes},
    b.box x = some c → (b.replay acts).box x = some c
  | [], _, h => h
  | a :: acts, _, h => box_replay acts (box_after h a)

/-- What has been captured has a box. -/
theorem box_captured {x : Variable} {v : Value} {c : CellId} : ∀ {acts : List Act} {b : Boxes},
    b.Explains acts → .captured x v c ∈ acts → (b.replay acts).box x = some c
  | a :: acts, b, h, hmem => by
    rcases List.mem_cons.mp hmem with rfl | hmem
    · refine box_replay acts ?_
      obtain ⟨hallows, -⟩ := h
      unfold Allows at hallows
      unfold after
      dsimp only at hallows ⊢
      cases hx : b.box x with
      | some d =>
        rw [hx] at hallows
        rw [hallows.1]
        exact hx
      | none =>
        rw [hx] at hallows
        exact (if_pos rfl).trans (congrArg some hallows.symm)
    · show ((b.after a).replay acts).box x = some c
      exact box_captured h.2 hmem

end Boxes

/-- Acts that concern no variable. -/
def Act.isAside : Act → Bool
  | .captured _ _ _ | .localRead _ _ | .localSet _ _ | .cellRead _ _ | .cellSet _ _ => false
  | _ => true

theorem Boxes.explains_aside : ∀ {acts : List Act} (b : Boxes), (∀ a ∈ acts, a.isAside) →
    b.Explains acts ∧ b.replay acts = b
  | [], _, _ => ⟨trivial, rfl⟩
  | a :: acts, b, h => by
    have ha : b.Allows a ∧ b.after a = b := by
      have haside := h a List.mem_cons_self
      cases a with
      | captured | localRead | localSet | cellRead | cellSet => cases haside
      | _ => exact ⟨trivial, rfl⟩
    obtain ⟨hexplains, hreplay⟩ : b.Explains acts ∧ b.replay acts = b :=
      explains_aside b fun a' ha' => h a' (List.mem_cons_of_mem a ha')
    refine ⟨⟨ha.1, ?_⟩, ?_⟩
    · rw [ha.2]
      exact hexplains
    · rw [replay, List.foldl_cons, ha.2]
      exact hreplay

/-! ## Stacks -/

/-- The locals of a frame on the stack of its task. -/
structure Span where
  activation : Nat
  base : Nat
  count : Nat

def Span.top (p : Span) : Nat := p.base + p.count

/-- Where a handler goes back to. -/
structure Mark where
  activation : Nat
  height : Nat

def Frame.span (f : Frame) : Span := ⟨f.activation, f.stackBase, f.localCount⟩

def Handler.mark (hd : Handler) : Mark := ⟨hd.activation, hd.stackDepth⟩

/-- What of a task concerns variables. -/
structure Storage where
  spans : List Span
  marks : List Mark
  stack : Array Value
  cells : List (Nat × CellId)
  /-- How many frames have been entered. -/
  entered : Nat

def Task.storage (t : Task) : Storage where
  spans := t.frames.map Frame.span
  marks := t.handlers.map Handler.mark
  stack := t.stack
  cells := t.openUpvalues.cells
  entered := t.activations

namespace Storage

variable {s s' : Storage} {x y : Variable} {slot slot' : Nat}

/-- A variable is at a stack slot. -/
def Locates (s : Storage) (x : Variable) (slot : Nat) : Prop :=
  ∃ p ∈ s.spans, p.activation = x.activation ∧ x.index < p.count ∧ slot = p.base + x.index

/-- The locals of frames lie one above the other. What a handler goes back to is above the
locals of its own frame and not above those of frames further in. -/
structure Neat (s : Storage) : Prop where
  apart : s.spans.Pairwise fun inner outer => outer.activation < inner.activation
  begun : ∀ p ∈ s.spans, p.activation < s.entered
  owned : ∀ k ∈ s.marks, ∃ p ∈ s.spans, p.activation = k.activation
  within : ∀ p ∈ s.spans, p.top ≤ s.stack.size
  stacked : s.spans.Pairwise fun inner outer => outer.top ≤ inner.base
  above : ∀ k ∈ s.marks, k.height ≤ s.stack.size
  nested : s.marks.Pairwise fun inner outer => outer.height ≤ inner.height
  outside : ∀ k ∈ s.marks, ∀ p ∈ s.spans, p.activation ≤ k.activation → p.top ≤ k.height
  inside : ∀ k ∈ s.marks, ∀ p ∈ s.spans, k.activation < p.activation → k.height ≤ p.base
  sorted : s.cells.Pairwise fun lower upper => lower.1 < upper.1

/-- Two frames are the same, or one is inside the other. -/
theorem Neat.compare (h : s.Neat) {p q : Span} (hp : p ∈ s.spans) (hq : q ∈ s.spans) :
    p = q ∨ (q.activation < p.activation ∧ q.top ≤ p.base) ∨
      (p.activation < q.activation ∧ p.top ≤ q.base) := by
  have hpair := List.pairwise_iff_getElem.mp (h.apart.and h.stacked)
  obtain ⟨i, hi, rfl⟩ := List.getElem_of_mem hp
  obtain ⟨j, hj, rfl⟩ := List.getElem_of_mem hq
  rcases Nat.lt_trichotomy i j with hlt | rfl | hlt
  · exact .inr (.inl (hpair i j hi hj hlt))
  · exact .inl rfl
  · exact .inr (.inr (hpair j i hj hi hlt))

theorem Neat.span_unique (h : s.Neat) {p q : Span} (hp : p ∈ s.spans) (hq : q ∈ s.spans)
    (heq : p.activation = q.activation) : p = q := by
  rcases h.compare hp hq with hsame | ⟨hlt, -⟩ | ⟨hlt, -⟩
  · exact hsame
  · omega
  · omega

/-- A variable is at one slot only. -/
theorem Locates.slot_unique (h : s.Neat) (hx : s.Locates x slot) (hx' : s.Locates x slot') :
    slot = slot' := by
  obtain ⟨p, hp, hact, -, rfl⟩ := hx
  obtain ⟨q, hq, hact', -, rfl⟩ := hx'
  rw [h.span_unique hp hq (hact.trans hact'.symm)]

/-- There is one variable only at a slot. -/
theorem Locates.unique (h : s.Neat) (hx : s.Locates x slot) (hy : s.Locates y slot)
    (ht : x.task = y.task) : x = y := by
  obtain ⟨p, hp, hact, hindex, hslot⟩ := hx
  obtain ⟨q, hq, hact', hindex', hslot'⟩ := hy
  obtain ⟨xt, xa, xi⟩ := x
  obtain ⟨yt, ya, yi⟩ := y
  dsimp only at hact hindex hslot hact' hindex' hslot' ht
  rcases h.compare hp hq with rfl | ⟨-, htop⟩ | ⟨-, htop⟩
  · rw [ht, ← hact, ← hact', show xi = yi by omega]
  · unfold Span.top at htop
    omega
  · unfold Span.top at htop
    omega

theorem Locates.lt_size (h : s.Neat) (hx : s.Locates x slot) : slot < s.stack.size := by
  obtain ⟨p, hp, -, hindex, rfl⟩ := hx
  have := h.within p hp
  unfold Span.top at this
  omega

theorem Locates.of_spans (hspans : s'.spans = s.spans) (h : s.Locates x slot) :
    s'.Locates x slot := by
  unfold Locates
  rw [hspans]
  exact h

/-- Operands above the locals of frames, and above what handlers go back to, come and go. -/
theorem Neat.restack (h : s.Neat) {stack : Array Value}
    (hspans : ∀ p ∈ s.spans, p.top ≤ stack.size) (hmarks : ∀ k ∈ s.marks, k.height ≤ stack.size) :
    { s with stack }.Neat where
  apart := h.apart
  begun := h.begun
  owned := h.owned
  within := hspans
  stacked := h.stacked
  above := hmarks
  nested := h.nested
  outside := h.outside
  inside := h.inside
  sorted := h.sorted

theorem Neat.write (h : s.Neat) (slot : Nat) (v : Value) :
    { s with stack := s.stack.setIfInBounds slot v }.Neat := by
  refine h.restack ?_ ?_
  · rw [Array.size_setIfInBounds]
    exact h.within
  · rw [Array.size_setIfInBounds]
    exact h.above

/-- What the innermost handler goes back to is above the locals of its frame and of those further
out, not above those of frames further in, and above what other handlers go back to. -/
theorem Neat.caught (h : s.Neat) {k : Mark} {marks : List Mark} (hmarks : s.marks = k :: marks)
    {left callers : List Span} {p : Span} (hspans : s.spans = left ++ p :: callers)
    (hact : p.activation = k.activation) :
    (∀ q ∈ p :: callers, q.top ≤ k.height) ∧ (∀ q ∈ left, k.height ≤ q.base) ∧
      ∀ k' ∈ s.marks, k'.height ≤ k.height := by
  have hk : k ∈ s.marks := hmarks ▸ List.mem_cons_self
  have hapart := List.pairwise_append.mp (hspans ▸ h.apart)
  refine ⟨fun q hq => ?_, fun q hq => ?_, fun k' hk' => ?_⟩
  · refine h.outside k hk q (hspans ▸ List.mem_append_right _ hq) ?_
    rcases List.mem_cons.mp hq with rfl | hq
    · exact Nat.le_of_eq hact
    · exact Nat.le_of_lt (hact ▸ (List.pairwise_cons.mp hapart.2.1).1 q hq)
  · have hlt := hapart.2.2 q hq p List.mem_cons_self
    exact h.inside k hk q (hspans ▸ List.mem_append_left _ hq) (hact ▸ hlt)
  · rcases List.mem_cons.mp (hmarks ▸ hk') with rfl | hk'
    · exact Nat.le_refl _
    · exact (List.pairwise_cons.mp (hmarks ▸ h.nested)).1 k' hk'

/-- So do handlers. -/
theorem Neat.mark (h : s.Neat) {p : Span} {ps : List Span} (hp : s.spans = p :: ps) :
    { s with marks := ⟨p.activation, s.stack.size⟩ :: s.marks }.Neat where
  apart := h.apart
  begun := h.begun
  owned k hk := by
    rcases List.mem_cons.mp hk with rfl | hk
    · exact ⟨p, hp ▸ List.mem_cons_self, rfl⟩
    · exact h.owned k hk
  within := h.within
  stacked := h.stacked
  above k hk := by
    rcases List.mem_cons.mp hk with rfl | hk
    · exact Nat.le_refl _
    · exact h.above k hk
  nested := List.pairwise_cons.mpr ⟨h.above, h.nested⟩
  outside k hk q hq hle := by
    rcases List.mem_cons.mp hk with rfl | hk
    · exact h.within q hq
    · exact h.outside k hk q hq hle
  inside k hk q hq hlt := by
    rcases List.mem_cons.mp hk with rfl | hk
    · -- No frame is further in than the innermost.
      have hlt : p.activation < q.activation := hlt
      have hapart := hp ▸ h.apart
      have hq : q ∈ p :: ps := hp ▸ hq
      rcases List.mem_cons.mp hq with rfl | hq
      · omega
      · have := (List.pairwise_cons.mp hapart).1 q hq
        omega
    · exact h.inside k hk q hq hlt
  sorted := h.sorted

theorem Neat.unmark (h : s.Neat) {marks : List Mark} (hsub : marks.Sublist s.marks) :
    { s with marks }.Neat where
  apart := h.apart
  begun := h.begun
  owned k hk := h.owned k (hsub.subset hk)
  within := h.within
  stacked := h.stacked
  above k hk := h.above k (hsub.subset hk)
  nested := h.nested.sublist hsub
  outside k hk := h.outside k (hsub.subset hk)
  inside k hk := h.inside k (hsub.subset hk)
  sorted := h.sorted

/-- The locals of a new frame begin with operands of its caller. -/
theorem Neat.enter (h : s.Neat) {base count : Nat} {locals : Array Value}
    (hspans : ∀ p ∈ s.spans, p.top ≤ base) (hmarks : ∀ k ∈ s.marks, k.height ≤ base)
    (htop : base + count ≤ s.stack.size + locals.size) :
    { s with
      spans := ⟨s.entered, base, count⟩ :: s.spans
      stack := s.stack ++ locals
      entered := s.entered + 1 }.Neat where
  apart := List.pairwise_cons.mpr ⟨h.begun, h.apart⟩
  begun p hp := by
    rcases List.mem_cons.mp hp with rfl | hp
    · exact Nat.lt_succ_self _
    · exact Nat.lt_succ_of_lt (h.begun p hp)
  owned k hk := by
    obtain ⟨p, hp, hact⟩ := h.owned k hk
    exact ⟨p, List.mem_cons_of_mem _ hp, hact⟩
  within p hp := by
    rw [Array.size_append]
    rcases List.mem_cons.mp hp with rfl | hp
    · exact htop
    · exact Nat.le_add_right_of_le (h.within p hp)
  stacked := List.pairwise_cons.mpr ⟨hspans, h.stacked⟩
  above k hk := by
    rw [Array.size_append]
    exact Nat.le_add_right_of_le (h.above k hk)
  nested := h.nested
  -- A mark belongs to a frame that was entered before, so the new frame never lies outside it.
  outside k hk p hp hle := by
    rcases List.mem_cons.mp hp with rfl | hp
    · obtain ⟨q, hq, hact⟩ := h.owned k hk
      have := h.begun q hq
      have hle : s.entered ≤ k.activation := hle
      omega
    · exact h.outside k hk p hp hle
  inside k hk p hp hlt := by
    rcases List.mem_cons.mp hp with rfl | hp
    · exact hmarks k hk
    · exact h.inside k hk p hp hlt
  sorted := h.sorted

/-- Cells in order are cut at a slot. -/
theorem mem_takeWhile_slot {n : Nat} {c : CellId} : ∀ {cells : List (Nat × CellId)},
    (cells.Pairwise fun lower upper => lower.1 < upper.1) →
    ((slot, c) ∈ cells.takeWhile (fun c => c.1 < n) ↔ (slot, c) ∈ cells ∧ slot < n)
  | [], _ => by simp
  | d :: cells, hp => by
    obtain ⟨hd, hp⟩ := List.pairwise_cons.mp hp
    rw [List.takeWhile_cons]
    split
    · rename_i hlt
      have hlt : d.1 < n := by simpa using hlt
      rw [List.mem_cons, List.mem_cons, mem_takeWhile_slot hp]
      constructor
      · rintro (rfl | ⟨hmem, hslot⟩)
        · exact ⟨.inl rfl, hlt⟩
        · exact ⟨.inr hmem, hslot⟩
      · rintro ⟨rfl | hmem, hslot⟩
        · exact .inl rfl
        · exact .inr ⟨hmem, hslot⟩
    · rename_i hge
      have hge : n ≤ d.1 := by simpa using hge
      constructor
      · intro hmem
        cases hmem
      · rintro ⟨hmem, hslot⟩
        rcases List.mem_cons.mp hmem with rfl | hmem
        · exact absurd hslot (Nat.not_lt.mpr hge)
        · have := hd _ hmem
          dsimp only at this
          omega

theorem mem_dropWhile_slot {n : Nat} {c : CellId} : ∀ {cells : List (Nat × CellId)},
    (cells.Pairwise fun lower upper => lower.1 < upper.1) →
    ((slot, c) ∈ cells.dropWhile (fun c => c.1 < n) ↔ (slot, c) ∈ cells ∧ n ≤ slot)
  | [], _ => by simp
  | d :: cells, hp => by
    obtain ⟨hd, hp⟩ := List.pairwise_cons.mp hp
    rw [List.dropWhile_cons]
    split
    · rename_i hlt
      have hlt : d.1 < n := by simpa using hlt
      rw [List.mem_cons, mem_dropWhile_slot hp]
      constructor
      · rintro ⟨hmem, hslot⟩
        exact ⟨.inr hmem, hslot⟩
      · rintro ⟨rfl | hmem, hslot⟩
        · exact absurd hlt (Nat.not_lt.mpr hslot)
        · exact ⟨hmem, hslot⟩
    · rename_i hge
      have hge : n ≤ d.1 := by simpa using hge
      refine ⟨fun hmem => ⟨hmem, ?_⟩, fun hmem => hmem.1⟩
      rcases List.mem_cons.mp hmem with rfl | hmem
      · exact hge
      · exact Nat.le_of_lt (Nat.lt_of_le_of_lt hge (hd _ hmem))

/-- Frames are left, and the stack is cut where the frames that stay have their last locals at
the most. -/
theorem Neat.cut (h : s.Neat) {spans left : List Span} (hspans : s.spans = left ++ spans)
    {marks : List Mark} (hmarks : marks.Sublist s.marks)
    (howned : ∀ k ∈ marks, ∃ p ∈ spans, p.activation = k.activation) {n : Nat}
    (hn : n ≤ s.stack.size) (htop : ∀ p ∈ spans, p.top ≤ n) (hheight : ∀ k ∈ marks, k.height ≤ n) :
    { s with
      spans
      marks
      stack := s.stack.take n
      cells := s.cells.takeWhile fun c => c.1 < n }.Neat := by
  have hsub : spans.Sublist s.spans := hspans ▸ List.sublist_append_right _ _
  have hsize : (s.stack.take n).size = n := by
    simp [hn]
  -- Whatever stays was so before; what is new is that no cell or mark is above the cut.
  constructor
  case apart => exact h.apart.sublist hsub
  case begun => exact fun p hp => h.begun p (hsub.subset hp)
  case owned => exact howned
  case within => exact fun p hp => hsize.symm ▸ htop p hp
  case stacked => exact h.stacked.sublist hsub
  case above => exact fun k hk => hsize.symm ▸ hheight k hk
  case nested => exact h.nested.sublist hmarks
  case outside => exact fun k hk p hp => h.outside k (hmarks.subset hk) p (hsub.subset hp)
  case inside => exact fun k hk p hp => h.inside k (hmarks.subset hk) p (hsub.subset hp)
  case sorted => exact h.sorted.sublist (List.takeWhile_sublist _)

end Storage

end TaskVm
