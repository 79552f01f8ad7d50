import TaskVm.Proofs.RoundTrip

/-!
# Programs that can be linked

The records of a file are a graph: a record leads to those that its functions run. Of a graph
linking takes the part that the main record leads to, and it makes chunks of this part exactly
when no number in it is without a record and no record in it leads to itself.

A chunk that has been made is there with the chunks of its functions, at smaller numbers. Along
a way through the graph the numbers fall, so that the way never comes back to where it began. The
other direction is what linking complains of, which is always wrong with the program.
-/

namespace TaskVm.ProgramFile

open Relation

variable {raw : Array RawChunk} {main : Nat} {g : Heap} {s : Linked}

/-! ## Ways through what was made -/

/-- A function of a record that was made runs the chunk of its own record, made before. -/
theorem Linked.Sound.named (hs : s.Sound raw) {i j : Nat} {c : ChunkId}
    (hi : s.chunk? i = some c) (hj : Names raw i j) : ∃ d, s.chunk? j = some d ∧ d < c := by
  obtain ⟨r, hr, hmade⟩ := hs.made i c hi
  obtain ⟨r', hr', t, ht⟩ := hj
  obtain rfl : r = r' := Option.some.inj (hr.symm.trans hr')
  obtain ⟨v, -, hv⟩ := exists_of_forall₂ hmade.constants ht
  cases hv with
  | function there template built below => exact ⟨_, built, below⟩

theorem Linked.Sound.uses (hs : s.Sound raw) {c : ChunkId} (hmain : s.chunk? main = some c)
    {i : Nat} (hi : Uses raw main i) : ∃ d, s.chunk? i = some d := by
  induction hi with
  | refl => exact ⟨c, hmain⟩
  | tail _ hj ih =>
    obtain ⟨d, hd⟩ := ih
    obtain ⟨e, he, -⟩ := hs.named hd hj
    exact ⟨e, he⟩

/-- The numbers fall along the way. -/
theorem Linked.Sound.falls (hs : s.Sound raw) {i j : Nat} {c : ChunkId}
    (hi : s.chunk? i = some c) (hway : TransGen (Names raw) i j) :
    ∃ d, s.chunk? j = some d ∧ d < c := by
  induction hway with
  | single hj => exact hs.named hi hj
  | tail _ hk ih =>
    obtain ⟨d, hd, hlt⟩ := ih
    obtain ⟨e, he, hlt'⟩ := hs.named hd hk
    exact ⟨e, he, Nat.lt_trans hlt' hlt⟩

theorem Linked.Sound.linkable (hs : s.Sound raw) {c : ChunkId} (hmain : s.chunk? main = some c) :
    Linkable raw main where
  closed i j hi hj := by
    obtain ⟨d, hd⟩ := hs.uses hmain hi
    obtain ⟨e, he, -⟩ := hs.named hd hj
    obtain ⟨r, hr, -⟩ := hs.made j e he
    obtain ⟨hlt, -⟩ := Array.getElem?_eq_some_iff.mp hr
    exact hlt
  founded i hi hcycle := by
    -- A chunk that leads to itself would be at a smaller number than its own.
    obtain ⟨d, hd⟩ := hs.uses hmain hi
    obtain ⟨e, he, hlt⟩ := hs.falls hd hcycle
    obtain rfl : d = e := Option.some.inj (hd.symm.trans he)
    exact Nat.lt_irrefl d hlt

/-! ## What is made -/

/-- The records of a program as chunks of a heap, next to what the heap had before. -/
structure Linked.Realises (raw : Array RawChunk) (main : Nat) (g : Heap) (s : Linked) : Prop where
  /-- The records of the program have chunks, and no others have. -/
  used : ∀ i, (∃ c, s.chunk? i = some c) ↔ Uses raw main i
  /-- The chunk is as the record says, and each of its functions runs the chunk of the record that
  it names. -/
  made : ∀ i c, s.chunk? i = some c → ∃ r, raw[i]? = some r ∧ MadeChunk s r c
  /-- Different records have different chunks. -/
  once : ∀ i j c, s.chunk? i = some c → s.chunk? j = some c → i = j
  /-- No other chunks are new. -/
  new : ∀ c, (∃ i, s.chunk? i = some c) ↔ g.chunks.size ≤ c ∧ c < s.heap.chunks.size
  /-- What was there is still there. -/
  kept : Linked.Grows { heap := g } s

theorem Linked.Follows.realises (h : Linked.Follows raw main [] { heap := g } s) {c : ChunkId}
    (hmain : s.chunk? main = some c) : s.Realises raw main g where
  used i := by
    constructor
    · rintro ⟨d, hd⟩
      rcases h.used i d hd with hd | ⟨huses, -⟩
      · cases hd
      · exact huses
    · exact h.sound.uses hmain
  made := h.sound.made
  once := h.sound.once
  new d := by
    constructor
    · rintro ⟨i, hd⟩
      obtain ⟨r, -, hmade⟩ := h.sound.made i d hd
      rcases h.used i d hd with hd | ⟨-, hle⟩
      · cases hd
      · exact ⟨hle, hmade.there⟩
    · rintro ⟨hle, hlt⟩
      exact h.added d hle hlt
  kept := h.grows

/-! ## Reading -/

theorem read_eq_link {bytes : List UInt8} {raw : List RawChunk} {main : Nat}
    (hraw : readRaw bytes = .ok (raw, main)) (g : Heap) : read g bytes = link g raw main := by
  unfold read
  rw [hraw]
  rfl

/-- To go deeper than there are records makes no difference. -/
theorem linkChunk_deep {raw : List RawChunk} {main depth : Nat} (hdepth : raw.length < depth) :
    linkChunk raw.toArray depth [] main = linkChunk raw.toArray (raw.length + 1) [] main := by
  induction hdepth with
  | refl => rfl
  | @step depth hle ih =>
    have hdeep : raw.toArray.size < depth + ([] : List Nat).length := hle
    rw [← ih]
    exact linkChunk_succ depth [] main hdeep List.nodup_nil (by simp)

/-- **A file is a program if and only if its records can be linked.** Linking goes as deep as it
has to. It makes a chunk of each record that the main one leads to, one for all the functions that
name it, and of no others. Otherwise it complains of a record that leads to itself or of a number
without a record, in what the main record leads to. -/
theorem read_iff_linkable {bytes : List UInt8} {raw : List RawChunk} {main : Nat}
    (hraw : readRaw bytes = .ok (raw, main)) (g : Heap) :
    (∀ depth, raw.length < depth →
      read g bytes = ((linkChunk raw.toArray depth [] main).run { heap := g }).map fun r =>
        (r.1, r.2.heap)) ∧
    ((∃ c h, read g bytes = .ok (c, h)) ↔ Linkable raw.toArray main) ∧
    (∀ c h, read g bytes = .ok (c, h) →
      ∃ s : Linked, s.heap = h ∧ s.chunk? main = some c ∧ s.Realises raw.toArray main g) ∧
    ∀ e, read g bytes = .error e → Blames raw.toArray main e := by
  obtain ⟨-, hmain, -⟩ := readRaw_valid hraw
  rw [read_eq_link hraw g]
  refine ⟨fun depth hdepth => ?_, ⟨?_, fun h => link_succeeds hmain h g⟩, ?_,
    fun e he => link_blames hmain he⟩
  · rw [linkChunk_deep hdepth]
    rfl
  · rintro ⟨c, h, hl⟩
    obtain ⟨s, -, hfollows, hc⟩ := link_makes hl
    exact hfollows.sound.linkable hc
  · intro c h hl
    obtain ⟨s, hs, hfollows, hc⟩ := link_makes hl
    exact ⟨s, hs, hc, hfollows.realises hc⟩

/-- A record without code whose constants are functions of other records. -/
def namesOnly (functions : List Nat) : List UInt8 :=
  word 0 ++ word functions.length ++
    (functions.map fun j =>
      [tagFunction] ++ word 0 ++ [0, 0] ++ littleEndian 2 0 ++ [0] ++ word j).flatten ++ word 0

/-- Two ways from the main record to one that both share, and next to them a record that leads to
itself and one that names a number without a record. -/
def diamondFile : List UInt8 :=
  word magic.toNat ++ word version.toNat ++ word 6 ++ word 0 ++
    namesOnly [1, 2, 1] ++ namesOnly [3] ++ namesOnly [3] ++ namesOnly [] ++
    namesOnly [4, 0] ++ namesOnly [99]

theorem diamondFile_linked : ∃ raw main, readRaw diamondFile = .ok (raw, main) ∧
    Linkable raw.toArray main ∧ ∃ s : Linked,
      s.Realises raw.toArray main {} ∧ s.heap.chunks.size = 4 := by
  have hcount : (read {} diamondFile).toOption.map (fun p => p.2.chunks.size) = some 4 := by
    decide +kernel
  have haccepted : (readRaw diamondFile).isOk = true := by decide +kernel
  cases hraw : readRaw diamondFile with
  | error e =>
    rw [hraw] at haccepted
    cases haccepted
  | ok p =>
    obtain ⟨-, hiff, hmakes, -⟩ := read_iff_linkable hraw {}
    cases hread : read {} diamondFile with
    | error e =>
      rw [hread] at hcount
      cases hcount
    | ok q =>
      obtain ⟨s, hs, -, hrealises⟩ := hmakes q.1 q.2 hread
      rw [hread] at hcount
      refine ⟨p.1, p.2, rfl, hiff.mp ⟨q.1, q.2, hread⟩, s, hrealises, ?_⟩
      rw [hs]
      exact Option.some.inj hcount

end TaskVm.ProgramFile
