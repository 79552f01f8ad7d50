import TaskVm.ProgramFile.Linker
import TaskVm.Proofs.Records
import TaskVm.Proofs.Discovery
import Mathlib.Data.List.Perm.Subperm

/-!
# Linking

Linking goes down the functions of a chunk before it makes the chunk, and remembers what it
has made. So at any time the chunks that are there are whole: each is as its record says, and
the chunks of its functions are there as well, at smaller numbers. Nothing that is there is
touched again, which is what carries this through the rest of the walk.

What is pending are different records, each of which leads to the next, so that there cannot be
more of them than there are records, and a record that is pending and comes up again leads to
itself. Therefore the depth that linking is given is never used up, and what it complains of is a
number without a record or a record that leads to itself, both among the records of the program.
-/

namespace TaskVm.ProgramFile

open Relation

variable {raw : Array RawChunk} {s s' s'' : Linked}

/-- Objects are only ever added. -/
structure Linked.Grows (s s' : Linked) : Prop where
  chunks : s.heap.chunks.size ≤ s'.heap.chunks.size
  chunk : ∀ i < s.heap.chunks.size, s'.heap.chunk i = s.heap.chunk i
  templates : s.heap.templates.size ≤ s'.heap.templates.size
  template : ∀ i < s.heap.templates.size, s'.heap.template i = s.heap.template i
  built : ∀ i id, s.chunk? i = some id → s'.chunk? i = some id

/-- A constant made from what the file has, with functions of chunks below some number. -/
inductive Made (s : Linked) (bound : ChunkId) : RawConstant → Value → Prop where
  | value (v : Value) : Made s bound (.value v) v
  | function {t : Template} {index : Nat} {chunk : ChunkId} {i : TemplateId}
      (there : i < s.heap.templates.size)
      (template : s.heap.template i = { t with chunk })
      (built : s.chunk? index = some chunk)
      (below : chunk < bound) : Made s bound (.function t index) (.function i)

/-- A chunk made from what the file has. -/
structure MadeChunk (s : Linked) (r : RawChunk) (id : ChunkId) : Prop where
  there : id < s.heap.chunks.size
  code : (s.heap.chunk id).code.toList = r.code
  lines : (s.heap.chunk id).lines.toList = r.lines
  constants : List.Forall₂ (Made s id) r.constants (s.heap.chunk id).constants.toList

/-- What is there at any time: whole chunks, and different ones for different numbers. -/
structure Linked.Sound (raw : Array RawChunk) (s : Linked) : Prop where
  made : ∀ i id, s.chunk? i = some id → ∃ r, raw[i]? = some r ∧ MadeChunk s r id
  once : ∀ i j id, s.chunk? i = some id → s.chunk? j = some id → i = j

/-! ## Nothing is touched again -/

theorem Linked.Grows.refl (s : Linked) : s.Grows s :=
  ⟨Nat.le_refl _, fun _ _ => rfl, Nat.le_refl _, fun _ _ => rfl, fun _ _ h => h⟩

theorem Linked.Grows.trans (h : s.Grows s') (h' : s'.Grows s'') : s.Grows s'' where
  chunks := Nat.le_trans h.chunks h'.chunks
  chunk i hi := (h'.chunk i (Nat.lt_of_lt_of_le hi h.chunks)).trans (h.chunk i hi)
  templates := Nat.le_trans h.templates h'.templates
  template i hi := (h'.template i (Nat.lt_of_lt_of_le hi h.templates)).trans (h.template i hi)
  built i id hi := h'.built i id (h.built i id hi)

theorem Made.grows {bound : ChunkId} {c : RawConstant} {v : Value} (hg : s.Grows s')
    (h : Made s bound c v) : Made s' bound c v := by
  cases h with
  | value => exact .value v
  | function there template built below =>
    refine .function (Nat.lt_of_lt_of_le there hg.templates) ?_ (hg.built _ _ built) below
    rw [hg.template _ there, template]

theorem Made.weaken {bound bound' : ChunkId} {c : RawConstant} {v : Value} (hle : bound ≤ bound')
    (h : Made s bound c v) : Made s bound' c v := by
  cases h with
  | value => exact .value v
  | function there template built below =>
    exact .function there template built (Nat.lt_of_lt_of_le below hle)

theorem MadeChunk.grows {r : RawChunk} {id : ChunkId} (hg : s.Grows s') (h : MadeChunk s r id) :
    MadeChunk s' r id := by
  have hsame := hg.chunk id h.there
  refine ⟨Nat.lt_of_lt_of_le h.there hg.chunks, ?_, ?_, ?_⟩
  · rw [hsame, h.code]
  · rw [hsame, h.lines]
  · rw [hsame]
    exact h.constants.imp fun _ _ => Made.grows hg

/-- A template more. -/
theorem Linked.grows_newTemplate (s : Linked) (t : Template) :
    s.Grows { s with heap := (s.heap.newTemplate t).2 } := by
  refine ⟨Nat.le_refl _, fun _ _ => rfl, ?_, ?_, fun _ _ h => h⟩
  · simp [Heap.newTemplate]
  · intro i hi
    have hne : i ≠ s.heap.templates.size := Nat.ne_of_lt hi
    simp [Heap.template, Heap.newTemplate, Array.getElem?_push, hne]

/-- The number of a record whose chunk has just been made. -/
theorem Linked.chunk?_cons (heap : Heap) (built : List (Nat × ChunkId)) (index i : Nat)
    (id : ChunkId) : Linked.chunk? ⟨heap, (index, id) :: built⟩ i =
      if index = i then some id else Linked.chunk? ⟨heap, built⟩ i := by
  unfold Linked.chunk?
  rw [List.find?_cons]
  by_cases hi : index = i
  · simp [hi]
  · have hne : (index == i) = false := by simpa using hi
    simp [hne, hi]

/-- A chunk more, for a number that had none. -/
theorem Linked.grows_newChunk (s : Linked) (c : Chunk) {index : Nat}
    (hnew : s.chunk? index = none) :
    s.Grows ⟨(s.heap.newChunk c).2, (index, s.heap.chunks.size) :: s.built⟩ := by
  refine ⟨?_, ?_, Nat.le_refl _, fun _ _ => rfl, ?_⟩
  · simp [Heap.newChunk]
  · intro i hi
    have hne : i ≠ s.heap.chunks.size := Nat.ne_of_lt hi
    simp [Heap.chunk, Heap.newChunk, Array.getElem?_push, hne]
  · intro i id hi
    rw [Linked.chunk?_cons, if_neg]
    · exact hi
    · rintro rfl
      rw [hnew] at hi
      cases hi

theorem Linked.Sound.newTemplate (hs : s.Sound raw) (t : Template) :
    Linked.Sound raw { s with heap := (s.heap.newTemplate t).2 } := by
  refine ⟨fun i id hi => ?_, hs.once⟩
  obtain ⟨r, hr, hmade⟩ := hs.made i id hi
  exact ⟨r, hr, hmade.grows (s.grows_newTemplate t)⟩

/-- The new chunk is whole, since its constants were made before. -/
theorem Linked.Sound.newChunk (hs : s.Sound raw) {index : Nat} {r : RawChunk}
    (hr : raw[index]? = some r) (hnew : s.chunk? index = none) {vs : List Value}
    (hvs : List.Forall₂ (Made s s.heap.chunks.size) r.constants vs) :
    Linked.Sound raw ⟨(s.heap.newChunk
      { code := r.code.toArray, constants := vs.toArray, lines := r.lines.toArray }).2,
      (index, s.heap.chunks.size) :: s.built⟩ := by
  have hg := s.grows_newChunk
    { code := r.code.toArray, constants := vs.toArray, lines := r.lines.toArray } hnew
  refine ⟨?_, ?_⟩
  · intro i id hi
    rw [Linked.chunk?_cons] at hi
    split at hi
    · rename_i hindex
      cases hi
      refine ⟨r, hindex ▸ hr, ?_, ?_, ?_, ?_⟩
      · simp [Heap.newChunk]
      · simp [Heap.chunk, Heap.newChunk]
      · simp [Heap.chunk, Heap.newChunk]
      · have hconstants : List.Forall₂ _ r.constants vs := hvs.imp fun _ _ => Made.grows hg
        simpa [Heap.chunk, Heap.newChunk] using hconstants
    · obtain ⟨r', hr', hmade⟩ := hs.made i id hi
      exact ⟨r', hr', hmade.grows hg⟩
  · -- The new chunk is at a number that none of the others has.
    have hfresh : ∀ i, s.chunk? i ≠ some s.heap.chunks.size := by
      intro i hi
      obtain ⟨_, _, hmade⟩ := hs.made i _ hi
      exact Nat.lt_irrefl _ hmade.there
    intro i j id hi hj
    rw [Linked.chunk?_cons] at hi hj
    split at hi
    · rename_i hindex
      cases hi
      split at hj
      · rename_i hindex'
        rw [← hindex, hindex']
      · exact absurd hj (hfresh j)
    · split at hj
      · cases hj
        exact absurd hi (hfresh i)
      · exact hs.once i j id hi hj

/-! ## What linking makes -/

/-- A function of one record runs another. -/
def Names (raw : Array RawChunk) (i j : Nat) : Prop :=
  ∃ r, raw[i]? = some r ∧ ∃ t, RawConstant.function t j ∈ r.constants

/-- A record is part of the program of another. -/
def Uses (raw : Array RawChunk) : Nat → Nat → Prop := ReflTransGen (Names raw)

/-- What holds behind a step of linking a program: what is there is sound, nothing was touched,
the numbers that were pending are still without a chunk, and each chunk that has been added is that
of a record of the program. -/
structure Linked.Follows (raw : Array RawChunk) (main : Nat) (pending : List Nat)
    (s s' : Linked) : Prop where
  sound : s'.Sound raw
  grows : s.Grows s'
  waits : ∀ i ∈ pending, s.chunk? i = none → s'.chunk? i = none
  used : ∀ i c, s'.chunk? i = some c →
    s.chunk? i = some c ∨ Uses raw main i ∧ s.heap.chunks.size ≤ c
  added : ∀ c, s.heap.chunks.size ≤ c → c < s'.heap.chunks.size → ∃ i, s'.chunk? i = some c

variable {main : Nat} {pending : List Nat}

theorem Linked.Follows.refl (hs : s.Sound raw) : s.Follows raw main pending s where
  sound := hs
  grows := .refl s
  waits _ _ hi := hi
  used _ _ hi := .inl hi
  added _ hle hlt := absurd hlt (Nat.not_lt.mpr hle)

theorem Linked.Follows.trans (h : s.Follows raw main pending s')
    (h' : s'.Follows raw main pending s'') : s.Follows raw main pending s'' where
  sound := h'.sound
  grows := h.grows.trans h'.grows
  waits i hi hnone := h'.waits i hi (h.waits i hi hnone)
  used i c hi := by
    rcases h'.used i c hi with hi | ⟨huses, hle⟩
    · exact h.used i c hi
    · exact .inr ⟨huses, Nat.le_trans h.grows.chunks hle⟩
  added c hle hlt := by
    by_cases hold : c < s'.heap.chunks.size
    · obtain ⟨i, hi⟩ := h.added c hle hold
      exact ⟨i, h'.grows.built i c hi⟩
    · exact h'.added c (Nat.le_of_not_lt hold) hlt

theorem Linked.Follows.newTemplate (hs : s.Sound raw) (t : Template) :
    s.Follows raw main pending { s with heap := (s.heap.newTemplate t).2 } where
  sound := hs.newTemplate t
  grows := s.grows_newTemplate t
  waits _ _ hi := hi
  used _ _ hi := .inl hi
  added _ hle hlt := absurd hlt (Nat.not_lt.mpr hle)

/-- A record has its chunk when the chunks of its functions have been made. -/
theorem Linked.Follows.newChunk {index : Nat} {r : RawChunk} {vs : List Value}
    (h : s.Follows raw main (index :: pending) s') (hr : raw[index]? = some r)
    (huses : Uses raw main index) (hnew : s.chunk? index = none) (hfree : index ∉ pending)
    (hvs : List.Forall₂ (Made s' s'.heap.chunks.size) r.constants vs) :
    s.Follows raw main pending ⟨(s'.heap.newChunk
      { code := r.code.toArray, constants := vs.toArray, lines := r.lines.toArray }).2,
      (index, s'.heap.chunks.size) :: s'.built⟩ := by
  -- Its own number was pending all the time, so nobody else has made this chunk.
  have hnew' := h.waits index List.mem_cons_self hnew
  have hgrows := s'.grows_newChunk
    { code := r.code.toArray, constants := vs.toArray, lines := r.lines.toArray } hnew'
  refine ⟨h.sound.newChunk hr hnew' hvs, h.grows.trans hgrows, ?_, ?_, ?_⟩
  · intro i hi hnone
    have hne : index ≠ i := by
      rintro rfl
      exact hfree hi
    rw [Linked.chunk?_cons, if_neg hne]
    exact h.waits i (List.mem_cons_of_mem index hi) hnone
  · intro i c hi
    rw [Linked.chunk?_cons] at hi
    split at hi
    · rename_i hindex
      cases hi
      exact .inr ⟨hindex ▸ huses, h.grows.chunks⟩
    · exact h.used i c hi
  · intro c hle hlt
    have hlt : c < s'.heap.chunks.size + 1 := by
      simpa [Heap.newChunk] using hlt
    rcases Nat.lt_succ_iff_lt_or_eq.mp hlt with hlt | rfl
    · obtain ⟨i, hi⟩ := h.added c hle hlt
      exact ⟨i, hgrows.built i c hi⟩
    · exact ⟨index, by rw [Linked.chunk?_cons, if_pos rfl]⟩

theorem linkConstants_makes {build : Nat → LinkM ChunkId} :
    ∀ {cs : List RawConstant} {s s' : Linked} {vs : List Value},
    (∀ t index, .function t index ∈ cs → ∀ s id s', s.Sound raw → build index s = .ok (id, s') →
      s.Follows raw main pending s' ∧ s'.chunk? index = some id) →
    s.Sound raw → linkConstants build cs s = .ok (vs, s') →
    s.Follows raw main pending s' ∧ List.Forall₂ (Made s' s'.heap.chunks.size) cs vs
  | [], s, _, _, _, hs, h => by
    cases h
    exact ⟨.refl hs, .nil⟩
  | .value v :: rest, s, s', _, hbuild, hs, h => by
    rw [linkConstants] at h
    obtain ⟨vs, s₁, hvs, h⟩ := bind_eq_ok.mp h
    cases h
    obtain ⟨hfollows, hmade⟩ := linkConstants_makes
      (fun t index hmem => hbuild t index (List.mem_cons_of_mem _ hmem)) hs hvs
    exact ⟨hfollows, .cons (.value v) hmade⟩
  | .function t index :: rest, s, s', _, hbuild, hs, h => by
    rw [linkConstants] at h
    obtain ⟨chunk, s₁, hchunk, h⟩ := bind_eq_ok.mp h
    obtain ⟨hfollows₁, hbuilt⟩ := hbuild t index List.mem_cons_self s chunk s₁ hs hchunk
    obtain ⟨_, _, hget, h⟩ := bind_eq_ok.mp h
    cases hget
    obtain ⟨_, s₂, hset, h⟩ := bind_eq_ok.mp h
    cases hset
    obtain ⟨vs, s₃, hvs, h⟩ := bind_eq_ok.mp h
    cases h
    have hfollows₂ : s₁.Follows raw main pending _ :=
      .newTemplate hfollows₁.sound { t with chunk }
    obtain ⟨hfollows₃, hmade⟩ := linkConstants_makes
      (fun t index hmem => hbuild t index (List.mem_cons_of_mem _ hmem)) hfollows₂.sound hvs
    refine ⟨hfollows₁.trans (hfollows₂.trans hfollows₃), .cons ?_ hmade⟩
    obtain ⟨r, -, hwhole⟩ := hfollows₁.sound.made index chunk hbuilt
    -- What was made stays made while the rest is linked.
    have hthere : Made { s₁ with heap := (s₁.heap.newTemplate { t with chunk }).2 }
        s₁.heap.chunks.size (.function t index) (.function s₁.heap.templates.size) := by
      refine .function ?_ ?_ hbuilt hwhole.there
      · simp [Heap.newTemplate]
      · simp [Heap.template, Heap.newTemplate]
    exact (hthere.grows hfollows₃.grows).weaken hfollows₃.grows.chunks

/-- **Linking makes whole chunks**, and nothing else happens to what is there. -/
theorem linkChunk_makes : ∀ {depth : Nat} {pending : List Nat} {index : Nat} {s s' : Linked}
    {id : ChunkId}, Uses raw main index → s.Sound raw →
    linkChunk raw depth pending index s = .ok (id, s') →
    s.Follows raw main pending s' ∧ s'.chunk? index = some id
  | depth + 1, pending, index, s, s', id, huses, hs, h => by
    rw [linkChunk] at h
    cases hr : raw[index]? with
    | none =>
      rw [hr] at h
      cases h
    | some r =>
      rw [hr] at h
      obtain ⟨_, _, hget, h⟩ := bind_eq_ok.mp h
      cases hget
      cases hnew : s.chunk? index with
      | some id' =>
        rw [hnew] at h
        cases h
        exact ⟨.refl hs, hnew⟩
      | none =>
        rw [hnew] at h
        dsimp only at h
        by_cases hpending : index ∈ pending
        · rw [if_pos (List.contains_iff_mem.mpr hpending)] at h
          cases h
        · rw [if_neg fun hmem => hpending (List.contains_iff_mem.mp hmem)] at h
          obtain ⟨vs, s₁, hvs, h⟩ := bind_eq_ok.mp h
          obtain ⟨hfollows, hmade⟩ := linkConstants_makes
            (fun t _ hmem _ _ _ hs h => linkChunk_makes (huses.tail ⟨r, hr, t, hmem⟩) hs h) hs hvs
          obtain ⟨_, _, hget, h⟩ := bind_eq_ok.mp h
          cases hget
          obtain ⟨_, s₂, hset, h⟩ := bind_eq_ok.mp h
          cases hset
          cases h
          refine ⟨hfollows.newChunk hr huses hnew hpending hmade, ?_⟩
          rw [Linked.chunk?_cons, if_pos rfl]

/-! ## What linking complains of -/

/-- What there is to be said against the records of a program. -/
inductive Blames (raw : Array RawChunk) (main : Nat) : Error → Prop where
  /-- A function of one of them runs a record that is not there. -/
  | missing {i j : Nat} (hi : Uses raw main i) (hj : Names raw i j) (hlarge : raw.size ≤ j) :
      Blames raw main (.badChunkIndex j raw.size)
  /-- One of them is inside itself. -/
  | cyclic {i : Nat} (hi : Uses raw main i) (hcycle : TransGen (Names raw) i i) :
      Blames raw main (.cyclicChunk i)

/-- A step of linking complains only of what is wrong with the program. -/
def Fair (raw : Array RawChunk) (main : Nat) {α : Type} (x : LinkM α) : Prop :=
  ∀ s e, x s = .error e → Blames raw main e

theorem fair_bind {α β : Type} {x : LinkM α} {f : α → LinkM β} (hx : Fair raw main x)
    (hf : ∀ a, Fair raw main (f a)) : Fair raw main (x >>= f) := by
  intro s e he
  rw [bind_apply] at he
  cases hr : x s with
  | error e' =>
    rw [hr] at he
    cases he
    exact hx s e hr
  | ok p =>
    rw [hr] at he
    exact hf p.1 p.2 e he

theorem fair_pure {α : Type} (a : α) : Fair raw main (pure a : LinkM α) := fun _ _ he => nomatch he

theorem fair_get : Fair raw main (get : LinkM Linked) := fun _ _ he => nomatch he

theorem fair_modify (f : Linked → Linked) : Fair raw main (modify f : LinkM Unit) :=
  fun _ _ he => nomatch he

theorem fair_throw {α : Type} {e : Error} (he : Blames raw main e) :
    Fair raw main (throw e : LinkM α) := by
  intro s e' he'
  cases he'
  exact he

theorem fair_linkConstants {build : Nat → LinkM ChunkId} : ∀ (cs : List RawConstant),
    (∀ t index, .function t index ∈ cs → Fair raw main (build index)) →
    Fair raw main (linkConstants build cs)
  | [], _ => fair_pure _
  | .value _ :: rest, hbuild => by
    have hrest := fair_linkConstants rest fun t index hmem =>
      hbuild t index (List.mem_cons_of_mem _ hmem)
    exact fair_bind hrest fun _ => fair_pure _
  | .function t index :: rest, hbuild => by
    have hrest := fair_linkConstants rest fun t index hmem =>
      hbuild t index (List.mem_cons_of_mem _ hmem)
    refine fair_bind (hbuild t index List.mem_cons_self) fun chunk => ?_
    refine fair_bind fair_get fun s => fair_bind (fair_modify _) fun _ => ?_
    exact fair_bind hrest fun _ => fair_pure _

/-- Different numbers of records are not more than there are records. -/
theorem length_le_of_nodup {n : Nat} {is : List Nat} (hnd : is.Nodup) (hlt : ∀ i ∈ is, i < n) :
    is.length ≤ n := by
  have hsub : is ⊆ List.range n := fun i hi => List.mem_range.mpr (hlt i hi)
  have hle := (List.Nodup.subperm hnd hsub).length_le
  rwa [List.length_range] at hle

/-- **Linking complains only of what is wrong**: of numbers without a record and of records inside
themselves that the program comes to. -/
theorem fair_linkChunk : ∀ (depth : Nat) (pending : List Nat) {index : Nat},
    raw.size < depth + pending.length → pending.Nodup → (∀ i ∈ pending, i < raw.size) →
    (∀ i ∈ pending, TransGen (Names raw) i index) → Uses raw main index →
    (raw.size ≤ index → ∃ i, Uses raw main i ∧ Names raw i index) →
    Fair raw main (linkChunk raw depth pending index)
  | 0, pending, _, hdepth, hnd, hlt, _, _, _ => by
    have hle := length_le_of_nodup hnd hlt
    omega
  | depth + 1, pending, index, hdepth, hnd, hlt, hchain, huses, hnamed => by
    rw [linkChunk]
    cases hr : raw[index]? with
    | none =>
      have hlarge : raw.size ≤ index := Array.getElem?_eq_none_iff.mp hr
      obtain ⟨i, hi, hnames⟩ := hnamed hlarge
      exact fair_throw (.missing hi hnames hlarge)
    | some r =>
      obtain ⟨hindex, -⟩ := Array.getElem?_eq_some_iff.mp hr
      refine fair_bind fair_get fun s => ?_
      split
      · exact fair_pure _
      · split
        -- What is pending leads here, so that what comes up again leads to itself.
        · rename_i hmem
          exact fair_throw (.cyclic huses (hchain index (List.contains_iff_mem.mp hmem)))
        · rename_i hfree
          have hfree : index ∉ pending := fun hmem => hfree (List.contains_iff_mem.mpr hmem)
          refine fair_bind (fair_linkConstants _ fun t j hmem => ?_) fun vs =>
            fair_bind fair_get fun s => fair_bind (fair_modify _) fun _ => fair_pure _
          have hnames : Names raw index j := ⟨r, hr, t, hmem⟩
          refine fair_linkChunk depth _ ?_ (List.nodup_cons.mpr ⟨hfree, hnd⟩) ?_ ?_
            (huses.tail hnames) fun _ => ⟨index, huses, hnames⟩
          · rw [List.length_cons]
            omega
          · intro i hi
            rcases List.mem_cons.mp hi with rfl | hi
            · exact hindex
            · exact hlt i hi
          · intro i hi
            rcases List.mem_cons.mp hi with rfl | hi
            · exact .single hnames
            · exact .tail (hchain i hi) hnames

theorem linkConstants_congr {build build' : Nat → LinkM ChunkId} : ∀ (cs : List RawConstant),
    (∀ t index, .function t index ∈ cs → build index = build' index) →
    linkConstants build cs = linkConstants build' cs
  | [], _ => rfl
  | .value _ :: rest, h => by
    rw [linkConstants, linkConstants, linkConstants_congr rest fun t index hmem =>
      h t index (List.mem_cons_of_mem _ hmem)]
  | .function t index :: rest, h => by
    rw [linkConstants, linkConstants, h t index List.mem_cons_self, linkConstants_congr rest
      fun t index hmem => h t index (List.mem_cons_of_mem _ hmem)]

/-- **There is no need to go deeper**: with the pending records there is depth enough for all. -/
theorem linkChunk_succ : ∀ (depth : Nat) (pending : List Nat) (index : Nat),
    raw.size < depth + pending.length → pending.Nodup → (∀ i ∈ pending, i < raw.size) →
    linkChunk raw (depth + 1) pending index = linkChunk raw depth pending index
  | 0, pending, _, hdepth, hnd, hlt => by
    have hle := length_le_of_nodup hnd hlt
    omega
  | depth + 1, pending, index, hdepth, hnd, hlt => by
    rw [linkChunk, linkChunk]
    cases hr : raw[index]? with
    | none => rfl
    | some r =>
      obtain ⟨hindex, -⟩ := Array.getElem?_eq_some_iff.mp hr
      by_cases hpending : index ∈ pending
      · simp only [List.contains_iff_mem.mpr hpending, if_true]
      · have hdeeper : linkConstants (linkChunk raw (depth + 1) (index :: pending)) r.constants =
            linkConstants (linkChunk raw depth (index :: pending)) r.constants := by
          refine linkConstants_congr _ fun t j _ => linkChunk_succ depth _ j ?_
            (List.nodup_cons.mpr ⟨hpending, hnd⟩) fun i hi => ?_
          · rw [List.length_cons]
            omega
          · rcases List.mem_cons.mp hi with rfl | hi
            · exact hindex
            · exact hlt i hi
        simp only [hdeeper]

end TaskVm.ProgramFile
