import TaskVm.Proofs.Linking
import TaskVm.Proofs.Isomorphism
import Mathlib.Data.List.Nodup

/-!
# Programs to files and back

The chunks of a program are written in the order in which they are discovered, and a chunk of
the file becomes an object again when it is linked. A chunk corresponds to the object made of
its record, and in this way the program read is the program written.

What is read from a file that somebody else has made is a program that can be written. The
file written of it may differ from the first in version, order, tags and padding. From then on
nothing changes any more.
-/

namespace TaskVm

open Relation ProgramFile

/-- A program that a file can hold. -/
structure Heap.Program (h : Heap) (main : ChunkId) : Prop where
  storable : ∀ c, h.Reaches main c → (h.chunk c).Storable h
  /-- There are not more chunks than a word can count. -/
  few : ∀ cs : List ChunkId, cs.Nodup → (∀ c ∈ cs, h.Reaches main c) → cs.length < 2 ^ 32
  /-- No chunk is among its own functions' chunks. A chunk is made with its constants, and
  never changed, so that it cannot be among them. -/
  founded : ∀ c, h.Reaches main c → ¬ TransGen h.Inner c c

theorem Heap.mem_inner {h : Heap} {c d : ChunkId} :
    h.Inner c d ↔ ∃ i, Value.function i ∈ (h.chunk c).constants.toList ∧
      (h.template i).chunk = d := by
  unfold Heap.Inner innerChunks
  rw [List.mem_filterMap]
  constructor
  · rintro ⟨v, hv, hd⟩
    cases v with
    | function i =>
      injection hd with hd
      exact ⟨i, hv, hd⟩
    | _ => cases hd
  · rintro ⟨i, hi, rfl⟩
    exact ⟨.function i, hi, rfl⟩

/-- A program can be looked through. It is founded if functions are of chunks made before. -/
theorem Heap.Program.of_discover {h : Heap} {main : ChunkId}
    (hstorable : ∀ c ∈ discover h main, (h.chunk c).Storable h)
    (hfew : (discover h main).length < 2 ^ 32)
    (hbelow : ∀ c ∈ discover h main, ∀ d ∈ innerChunks h c, d < c) : h.Program main where
  storable c hc := hstorable c (mem_discover.mpr hc)
  few cs hnd hcs := by
    have hsub : cs ⊆ discover h main := fun c hc => mem_discover.mpr (hcs c hc)
    have hle := (List.Nodup.subperm hnd hsub).length_le
    omega
  founded c hc hcycle := by
    have hless : ∀ d, TransGen h.Inner c d → h.Reaches main d ∧ d < c := by
      intro d hd
      induction hd with
      | single hd => exact ⟨.tail hc hd, hbelow _ (mem_discover.mpr hc) _ hd⟩
      | tail _ hd ih =>
        exact ⟨.tail ih.1 hd, Nat.lt_trans (hbelow _ (mem_discover.mpr ih.1) _ hd) ih.2⟩
    exact Nat.lt_irrefl c (hless c hcycle).2

namespace ProgramFile

theorem exists_of_forall₂ {α β : Type} {R : α → β → Prop} {as : List α} {bs : List β}
    (h : List.Forall₂ R as bs) {a : α} (ha : a ∈ as) : ∃ b ∈ bs, R a b := by
  induction h with
  | nil => cases ha
  | cons hr _ ih =>
    rcases List.mem_cons.mp ha with rfl | ha
    · exact ⟨_, List.mem_cons_self, hr⟩
    · obtain ⟨b, hb, hr⟩ := ih ha
      exact ⟨b, List.mem_cons_of_mem _ hb, hr⟩

/-! ## Files -/

theorem reads_header {count : Nat} (hpos : 0 < count) (hc : count < 2 ^ 32) :
    Reads ReadM.header (headerBytes count) (count, 0) := by
  have hmagic : (magic.toNat != magic.toNat) = false := bne_self_eq_false _
  have hfields : Reads ReadM.header
      (word magic.toNat ++ (word version.toNat ++ (word count ++ (word 0 ++ [])))) (count, 0) := by
    refine reads_bind (reads_word _ magic.toNat_lt) ?_
    rw [hmagic]
    refine reads_bind (reads_word _ version.toNat_lt) ?_
    rw [if_neg (Nat.lt_irrefl _)]
    refine reads_bind (reads_word _ hc) (reads_bind (reads_word _ (by decide)) ?_)
    rw [if_neg (Nat.not_le.mpr hpos)]
    exact reads_pure _
  rw [headerBytes]
  simpa using hfields

theorem gives_header : Gives ReadM.header fun p => p.2 < p.1 ∧ p.1 < 2 ^ 32 := by
  refine gives_bind (gives_any _) fun found _ => ?_
  split
  · exact gives_bind (P := fun _ => False) (gives_throw _) fun _ h => h.elim
  · refine gives_bind (gives_any _) fun version _ => ?_
    split
    · exact gives_bind (P := fun _ => False) (gives_throw _) fun _ h => h.elim
    · refine gives_bind (gives_word _) fun count hcount => gives_bind (gives_any _) fun main _ => ?_
      split
      · exact gives_bind (P := fun _ => False) (gives_throw _) fun _ h => h.elim
      · rename_i hmain
        exact gives_pure ⟨Nat.lt_of_not_le hmain, hcount⟩

theorem reads_file {parts : List (List UInt8)} {raw : List RawChunk}
    (hpos : 0 < raw.length) (hlen : raw.length < 2 ^ 32)
    (hparts : List.Forall₂ (Reads ReadM.chunk) parts raw) :
    Reads ReadM.file (headerBytes raw.length ++ parts.flatten) (raw, 0) := by
  have hread : Reads ReadM.file (headerBytes raw.length ++ (parts.flatten ++ [])) (raw, 0) :=
    reads_bind (reads_header hpos hlen) (reads_bind (reads_repeated hparts) (reads_pure _))
  rwa [List.append_nil] at hread

theorem readRaw_of_reads {parts : List (List UInt8)} {raw : List RawChunk}
    (hpos : 0 < raw.length) (hlen : raw.length < 2 ^ 32)
    (hparts : List.Forall₂ (Reads ReadM.chunk) parts raw) :
    readRaw (headerBytes raw.length ++ parts.flatten) = .ok (raw, 0) := by
  have hall := (reads_file hpos hlen hparts).whole []
  rw [List.append_nil] at hall
  unfold readRaw
  rw [StateT.run, hall]
  rfl

theorem readRaw_valid {bytes : List UInt8} {raw : List RawChunk} {main : Nat}
    (h : readRaw bytes = .ok (raw, main)) :
    raw.length < 2 ^ 32 ∧ main < raw.length ∧ ∀ r ∈ raw, r.Valid := by
  have hgives : Gives ReadM.file fun p =>
      p.1.length < 2 ^ 32 ∧ p.2 < p.1.length ∧ ∀ r ∈ p.1, r.Valid := by
    refine gives_bind gives_header fun counts hcounts => ?_
    refine gives_bind (gives_repeated gives_chunk _) fun chunks hchunks => gives_pure ?_
    exact ⟨hchunks.1.symm ▸ hcounts.2, hchunks.1.symm ▸ hcounts.1, hchunks.2⟩
  unfold readRaw at h
  rw [StateT.run] at h
  cases hfile : ReadM.file bytes with
  | error e =>
    rw [hfile] at h
    cases h
  | ok p =>
    rw [hfile] at h
    have hp : p.1 = (raw, main) := Except.ok.inj h
    have hall := hgives bytes p.1 p.2 hfile
    rwa [hp] at hall

/-! ## What is linked -/

theorem link_eq_map (g : Heap) (raw : List RawChunk) (index : Nat) :
    link g raw index = (linkChunk raw.toArray (raw.length + 1) [] index { heap := g }).map fun r =>
      (r.1, r.2.heap) := rfl

theorem Linked.sound_start (raw : Array RawChunk) (g : Heap) : Linked.Sound raw { heap := g } := by
  constructor
  · intro i id hi
    cases hi
  · intro i j id hi
    cases hi

theorem link_makes {g h : Heap} {raw : List RawChunk} {index : Nat} {main : ChunkId}
    (hl : link g raw index = .ok (main, h)) :
    ∃ s : Linked, s.heap = h ∧ Linked.Follows raw.toArray index [] { heap := g } s ∧
      s.chunk? index = some main := by
  rw [link_eq_map] at hl
  cases hchunk : linkChunk raw.toArray (raw.length + 1) [] index { heap := g } with
  | error e =>
    rw [hchunk] at hl
    cases hl
  | ok p =>
    rw [hchunk] at hl
    cases hl
    obtain ⟨hfollows, hmain⟩ := linkChunk_makes .refl (Linked.sound_start _ g) hchunk
    exact ⟨p.2, rfl, hfollows, hmain⟩

theorem link_blames {g : Heap} {raw : List RawChunk} {index : Nat} {e : Error}
    (hindex : index < raw.length) (hl : link g raw index = .error e) :
    Blames raw.toArray index e := by
  have hfair : Fair raw.toArray index (linkChunk raw.toArray (raw.length + 1) [] index) := by
    refine fair_linkChunk _ _ (by simp) List.nodup_nil (by simp) (by simp) .refl fun hlarge => ?_
    exact absurd hindex (Nat.not_lt.mpr hlarge)
  rw [link_eq_map] at hl
  cases hchunk : linkChunk raw.toArray (raw.length + 1) [] index { heap := g } with
  | error e' =>
    rw [hchunk] at hl
    cases hl
    exact hfair _ e hchunk
  | ok p =>
    rw [hchunk] at hl
    cases hl

/-- The records of a program can be made into chunks: a function of them runs a chunk of the file,
and none of them leads to itself. -/
structure Linkable (raw : Array RawChunk) (main : Nat) : Prop where
  closed : ∀ i j, Uses raw main i → Names raw i j → j < raw.size
  founded : ∀ i, Uses raw main i → ¬ TransGen (Names raw) i i

theorem link_succeeds {raw : List RawChunk} {index : Nat} (hindex : index < raw.length)
    (hlinkable : Linkable raw.toArray index) (g : Heap) :
    ∃ main h, link g raw index = .ok (main, h) := by
  cases hl : link g raw index with
  | ok p => exact ⟨p.1, p.2, rfl⟩
  | error e =>
    cases link_blames hindex hl with
    | missing hi hj hlarge => exact absurd (hlinkable.closed _ _ hi hj) (Nat.not_lt.mpr hlarge)
    | cyclic hi hcycle => exact absurd hcycle (hlinkable.founded _ hi)

/-! ## What is read is a program -/

section Image

variable {raw : Array RawChunk} {s : Linked}

/-- The chunks inside a chunk that was made have been made before it. -/
theorem Linked.Sound.inner (hs : s.Sound raw) (hraw : ∀ r ∈ raw, r.Valid) {index : Nat}
    {c d : ChunkId} (hc : s.chunk? index = some c) (hd : s.heap.Inner c d) :
    (∃ j, s.chunk? j = some d) ∧ d < c := by
  obtain ⟨r, hr, hmade⟩ := hs.made index c hc
  obtain ⟨i, hi, hchunk⟩ := Heap.mem_inner.mp hd
  obtain ⟨k, hmem, hk⟩ := exists_of_forall₂ hmade.constants.flip hi
  cases hk with
  | value => exact ((hraw r (Array.mem_of_getElem? hr)).constants _ hmem).elim
  | function there template built below =>
    rw [template] at hchunk
    dsimp only at hchunk
    exact ⟨⟨_, hchunk ▸ built⟩, hchunk ▸ below⟩

theorem Linked.Sound.reached (hs : s.Sound raw) (hraw : ∀ r ∈ raw, r.Valid) {index : Nat}
    {main c : ChunkId} (hmain : s.chunk? index = some main) (hc : s.heap.Reaches main c) :
    ∃ i, s.chunk? i = some c := by
  induction hc with
  | refl => exact ⟨index, hmain⟩
  | tail _ hd ih =>
    obtain ⟨i, hi⟩ := ih
    exact (hs.inner hraw hi hd).1

theorem Linked.Sound.founded (hs : s.Sound raw) (hraw : ∀ r ∈ raw, r.Valid) {index : Nat}
    {c d : ChunkId} (hc : s.chunk? index = some c) (hd : TransGen s.heap.Inner c d) :
    (∃ j, s.chunk? j = some d) ∧ d < c := by
  induction hd with
  | single hd => exact hs.inner hraw hc hd
  | tail _ hd ih =>
    obtain ⟨⟨j, hj⟩, hlt⟩ := ih
    obtain ⟨hthere, hlt'⟩ := hs.inner hraw hj hd
    exact ⟨hthere, Nat.lt_trans hlt' hlt⟩

theorem MadeChunk.storable {r : RawChunk} {c : ChunkId} (hr : r.Valid) (h : MadeChunk s r c) :
    (s.heap.chunk c).Storable s.heap := by
  have hcode := congrArg List.length h.code
  have hlines := congrArg List.length h.lines
  have hpool := h.constants.length_eq
  simp only [Array.length_toList] at hcode hlines hpool
  refine ⟨?_, ?_, ?_, ?_⟩
  · rw [hcode, hlines, hr.lines]
  · rw [hcode]
    exact hr.code
  · rw [← hpool]
    exact hr.pool
  · intro v hv
    obtain ⟨k, hk, hmade⟩ := exists_of_forall₂ h.constants.flip hv
    have hvalid := hr.constants k hk
    cases hmade with
    | value =>
      cases v with
      | nil => trivial
      | bool => trivial
      | number => trivial
      | string => exact hvalid
      | _ => exact hvalid.elim
    | function there template built below =>
      show Short (s.heap.template _).name
      rw [template]
      exact hvalid

theorem Linked.Sound.program (hs : s.Sound raw) (hlen : raw.size < 2 ^ 32)
    (hraw : ∀ r ∈ raw, r.Valid) {index : Nat} {main : ChunkId}
    (hmain : s.chunk? index = some main) : s.heap.Program main where
  storable c hc := by
    obtain ⟨i, hi⟩ := hs.reached hraw hmain hc
    obtain ⟨r, hr, hmade⟩ := hs.made i c hi
    exact hmade.storable (hraw r (Array.mem_of_getElem? hr))
  few cs hnd hcs := by
    -- Each of the chunks is that of a record, and no two are that of the same.
    have hsub : cs ⊆ (List.range raw.size).filterMap s.chunk? := by
      intro c hc
      obtain ⟨i, hi⟩ := hs.reached hraw hmain (hcs c hc)
      obtain ⟨r, hr, -⟩ := hs.made i c hi
      obtain ⟨hlt, -⟩ := Array.getElem?_eq_some_iff.mp hr
      exact List.mem_filterMap.mpr ⟨i, List.mem_range.mpr hlt, hi⟩
    have hle := (List.Nodup.subperm hnd hsub).length_le
    have hle' := List.length_filterMap_le s.chunk? (List.range raw.size)
    rw [List.length_range] at hle'
    omega
  founded c hc hcycle := by
    obtain ⟨i, hi⟩ := hs.reached hraw hmain hc
    exact Nat.lt_irrefl c (hs.founded hraw hi hcycle).2

end Image

/-- What is read from a file can be written to one. -/
theorem program_of_read {g h : Heap} {bytes : List UInt8} {main : ChunkId}
    (hread : read g bytes = .ok (main, h)) : h.Program main := by
  unfold read at hread
  cases hraw : readRaw bytes with
  | error e =>
    rw [hraw] at hread
    cases hread
  | ok p =>
    rw [hraw] at hread
    obtain ⟨hlen, -, hvalid⟩ := readRaw_valid hraw
    obtain ⟨s, rfl, hfollows, hmain⟩ := link_makes (show link g p.1 p.2 = .ok (main, h) from hread)
    exact hfollows.sound.program hlen (fun r hr => hvalid r (List.mem_toArray.mp hr)) hmain

/-! ## What is written is read back -/

section Written

variable {h : Heap} {main : ChunkId}

/-- The records of the chunks of a program, in the order in which they are discovered. -/
def records (h : Heap) (main : ChunkId) : List RawChunk :=
  (discover h main).map fun c => rawChunk h (discover h main) (h.chunk c)

theorem records_getElem? {i : Nat} {r : RawChunk}
    (hr : (records h main).toArray[i]? = some r) : ∃ c, (discover h main)[i]? = some c ∧
      r = rawChunk h (discover h main) (h.chunk c) := by
  rw [records, List.getElem?_toArray, List.getElem?_map] at hr
  obtain ⟨c, hc, rfl⟩ := Option.map_eq_some_iff.mp hr
  exact ⟨c, hc, rfl⟩

/-- A chunk inside another has a number, and its record is at that number. -/
theorem getElem?_idxOf?_inner {c d : ChunkId} (hc : c ∈ discover h main) (hd : h.Inner c d) :
    (discover h main)[((discover h main).idxOf? d).getD 0]? = some d := by
  have hmem : d ∈ discover h main := mem_discover.mpr (.tail (mem_discover.mp hc) hd)
  cases hi : (discover h main).idxOf? d with
  | none => exact absurd hmem (List.idxOf?_eq_none_iff.mp hi)
  | some i =>
    obtain ⟨hlt, hget, -⟩ := List.idxOf?_eq_some_iff.mp hi
    rw [Option.getD_some, List.getElem?_eq_getElem hlt, hget]

/-- The records name each other as the chunks do. -/
theorem inner_of_names {i j : Nat} (hn : Names (records h main).toArray i j) :
    ∃ c d, (discover h main)[i]? = some c ∧ (discover h main)[j]? = some d ∧ h.Inner c d := by
  obtain ⟨r, hr, t, ht⟩ := hn
  obtain ⟨c, hc, rfl⟩ := records_getElem? hr
  obtain ⟨v, hv, hvt⟩ := List.mem_map.mp ht
  cases v with
  | function k =>
    injection hvt with _ hj
    have hinner : h.Inner c (h.template k).chunk := Heap.mem_inner.mpr ⟨k, hv, rfl⟩
    refine ⟨c, (h.template k).chunk, hc, ?_, hinner⟩
    rw [← hj]
    exact getElem?_idxOf?_inner (List.mem_of_getElem? hc) hinner
  | _ => cases hvt

theorem chain_of_names {i j : Nat} (hn : TransGen (Names (records h main).toArray) i j) :
    ∃ c d, (discover h main)[i]? = some c ∧ (discover h main)[j]? = some d ∧
      TransGen h.Inner c d := by
  induction hn with
  | single hn =>
    obtain ⟨c, d, hc, hd, hinner⟩ := inner_of_names hn
    exact ⟨c, d, hc, hd, .single hinner⟩
  | tail _ hn ih =>
    obtain ⟨c, d, hc, hd, hchain⟩ := ih
    obtain ⟨d', e, hd', he, hinner⟩ := inner_of_names hn
    have hsame : d' = d := Option.some.inj (hd'.symm.trans hd)
    exact ⟨c, e, hc, he, .tail hchain (hsame ▸ hinner)⟩

/-- What is written of a program spells its records. -/
theorem readRaw_write (hp : h.Program main) :
    ∃ bytes, write h main = .ok bytes ∧ readRaw bytes = .ok (records h main, 0) := by
  have hfew : (discover h main).length < 2 ^ 32 :=
    hp.few _ (nodup_discover h main) fun c hc => mem_discover.mp hc
  have hpos : 0 < (discover h main).length :=
    List.length_pos_of_mem (mem_discover.mpr (.refl : h.Reaches main main))
  have heach : ∀ c ∈ discover h main, ∃ bytes,
      chunkBytes h (discover h main) (h.chunk c) = .ok bytes ∧
        Reads ReadM.chunk bytes (rawChunk h (discover h main) (h.chunk c)) :=
    fun c hc => reads_chunk hfew (hp.storable c (mem_discover.mp hc))
  obtain ⟨parts, hparts, hreads⟩ := reads_each heach
  have hlen : (records h main).length = (discover h main).length := List.length_map _
  refine ⟨headerBytes (discover h main).length ++ parts.flatten, ?_, ?_⟩
  · unfold write
    dsimp only
    rw [hparts]
    rfl
  · rw [← hlen]
    exact readRaw_of_reads (hlen ▸ hpos) (hlen ▸ hfew) hreads

/-- A constant that was written and made again. -/
theorem sameConstant_of_made {s : Linked} {bound c : ChunkId} (hc : c ∈ discover h main)
    {v v' : Value} (hmem : v ∈ (h.chunk c).constants.toList) (hv : v.Storable h)
    (hmade : Made s bound (rawConstant h (discover h main) v) v') :
    SameConstant h s.heap (fun a b => ∃ i, (discover h main)[i]? = some a ∧ s.chunk? i = some b)
      v v' := by
  cases v with
  | nil =>
    cases hmade
    exact .nil
  | bool b =>
    cases hmade
    exact .bool b
  | number n =>
    cases hmade
    exact .number n
  | string t =>
    cases hmade
    exact .string t
  | function k =>
    cases hmade with
    | function there template built below =>
      have hinner : h.Inner c (h.template k).chunk := Heap.mem_inner.mpr ⟨k, hmem, rfl⟩
      refine .function ?_ ⟨_, getElem?_idxOf?_inner hc hinner, ?_⟩
      · rw [template]
      · rw [template]
        exact built
  | _ => exact hv.elim

theorem sameConstants_of_made {s : Linked} {bound c : ChunkId} (hc : c ∈ discover h main) :
    ∀ {vs vs' : List Value}, (∀ v ∈ vs, v ∈ (h.chunk c).constants.toList) →
    (∀ v ∈ vs, v.Storable h) →
    List.Forall₂ (Made s bound) (vs.map (rawConstant h (discover h main))) vs' →
    List.Forall₂ (SameConstant h s.heap
      fun a b => ∃ i, (discover h main)[i]? = some a ∧ s.chunk? i = some b) vs vs'
  | [], _, _, _, .nil => .nil
  | v :: vs, _ :: _, hmem, hvs, .cons hmade hrest =>
    .cons (sameConstant_of_made hc (hmem v List.mem_cons_self) (hvs v List.mem_cons_self) hmade)
      (sameConstants_of_made hc (fun u hu => hmem u (List.mem_cons_of_mem v hu))
        (fun u hu => hvs u (List.mem_cons_of_mem v hu)) hrest)

/-- A chunk corresponds to what was made of its record. -/
theorem isomorphism_of_made (hp : h.Program main) {s : Linked}
    (hs : s.Sound (records h main).toArray) {main' : ChunkId} (hmain : s.chunk? 0 = some main') :
    Isomorphism h main s.heap main'
      fun c c' => ∃ i, (discover h main)[i]? = some c ∧ s.chunk? i = some c' := by
  have hrecord : ∀ c c', (∃ i, (discover h main)[i]? = some c ∧ s.chunk? i = some c') →
      c ∈ discover h main ∧ MadeChunk s (rawChunk h (discover h main) (h.chunk c)) c' := by
    rintro c c' ⟨i, hi, hi'⟩
    obtain ⟨r, hr, hmade⟩ := hs.made i c' hi'
    obtain ⟨d, hd, rfl⟩ := records_getElem? hr
    have hsame : d = c := Option.some.inj (hd.symm.trans hi)
    exact ⟨List.mem_of_getElem? hi, hsame ▸ hmade⟩
  refine ⟨⟨0, discover_head h main, hmain⟩, ?_, ?_, ?_, ?_⟩
  -- A chunk is discovered once, and no two records have the same chunk made of them.
  · rintro c d c' d' ⟨i, hc, hd⟩ ⟨i', hc', hd'⟩
    constructor
    · rintro rfl
      obtain ⟨hlt, hget⟩ := List.getElem?_eq_some_iff.mp hc
      obtain ⟨hlt', hget'⟩ := List.getElem?_eq_some_iff.mp hc'
      have hindex : i = i' :=
        (List.Nodup.getElem_inj_iff (nodup_discover h main)).mp (hget.trans hget'.symm)
      rw [hindex] at hd
      exact Option.some.inj (hd.symm.trans hd')
    · rintro rfl
      rw [hs.once i i' d hd hd'] at hc
      exact Option.some.inj (hc.symm.trans hc')
  · intro c c' hcc
    exact Array.toList_inj.mp (hrecord c c' hcc).2.code
  · intro c c' hcc
    exact Array.toList_inj.mp (hrecord c c' hcc).2.lines
  · intro c c' hcc
    obtain ⟨hc, hmade⟩ := hrecord c c' hcc
    exact sameConstants_of_made hc (fun _ hv => hv)
      (hp.storable c (mem_discover.mp hc)).constants hmade.constants

end Written

/-- The bytes do not depend on the heap into which they are read. -/
theorem read_written {h : Heap} {main : ChunkId} (hp : h.Program main) :
    ∃ bytes, write h main = .ok bytes ∧
      ∀ g, ∃ main' h', read g bytes = .ok (main', h') ∧ Isomorphic h main h' main' := by
  obtain ⟨bytes, hwrite, hread⟩ := readRaw_write hp
  refine ⟨bytes, hwrite, fun g => ?_⟩
  have hpos : 0 < (records h main).length := by
    rw [records, List.length_map]
    exact List.length_pos_of_mem (mem_discover.mpr (.refl : h.Reaches main main))
  -- Records name each other as chunks do.
  have hlinkable : Linkable (records h main).toArray 0 := by
    constructor
    · intro i j _ hn
      obtain ⟨c, d, -, hd, -⟩ := inner_of_names hn
      obtain ⟨hlt, -⟩ := List.getElem?_eq_some_iff.mp hd
      rwa [List.size_toArray, records, List.length_map]
    · intro i _ hn
      obtain ⟨c, d, hc, hd, hchain⟩ := chain_of_names hn
      have hsame : d = c := Option.some.inj (hd.symm.trans hc)
      exact hp.founded c (mem_discover.mp (List.mem_of_getElem? hc)) (hsame ▸ hchain)
  obtain ⟨main', h', hlink⟩ := link_succeeds hpos hlinkable g
  obtain ⟨s, rfl, hfollows, hmain⟩ := link_makes hlink
  refine ⟨main', s.heap, ?_, _, isomorphism_of_made hp hfollows.sound hmain⟩
  unfold read
  rw [hread]
  exact hlink

/-- **A program that a file can hold is written, and what is read back is the same program**,
whatever else the heap holds into which it is read. -/
theorem round_trip {h : Heap} {main : ChunkId} (hp : h.Program main) (g : Heap) :
    ∃ bytes main' h', write h main = .ok bytes ∧ read g bytes = .ok (main', h') ∧
      Isomorphic h main h' main' := by
  obtain ⟨bytes, hwrite, hread⟩ := read_written hp
  obtain ⟨main', h', hread', hi⟩ := hread g
  exact ⟨bytes, main', h', hwrite, hread', hi⟩

/-- Two functions of one chunk, in a program whose code does not fill its words. -/
def twins : Heap where
  templates := #[{ name := "left", arity := 1, chunk := 0 },
    { name := "right", variadic := true, chunk := 0 }]
  chunks := #[
    { code := #[0x62], constants := #[.number ⟨0x7ff8000000000001⟩, .bool true], lines := #[7] },
    { code := #[0x01, 0x00, 0x00, 0x61, 0x62]
      constants := #[.function 0, .function 1, .string "né", .nil]
      lines := #[1, 1, 1, 2, -3] }]

theorem twins_round_trip : twins.Program 1 ∧
    ∃ bytes main' h', write twins 1 = .ok bytes ∧ read {} bytes = .ok (main', h') ∧
      Isomorphic twins 1 h' main' := by
  have hp : twins.Program 1 := .of_discover (by decide) (by decide) (by decide)
  exact ⟨hp, round_trip hp {}⟩

/-- **Reading normalises.** What is read from any file at all can be written, what is written
is read as the same program, and of that the same file is written. -/
theorem read_normalises {g h : Heap} {bytes : List UInt8} {main : ChunkId}
    (hread : read g bytes = .ok (main, h)) (k : Heap) :
    ∃ bytes' main' h', write h main = .ok bytes' ∧ read k bytes' = .ok (main', h') ∧
      Isomorphic h main h' main' ∧ write h' main' = .ok bytes' := by
  obtain ⟨bytes', hwrite, hagain⟩ := read_written (program_of_read hread)
  obtain ⟨main', h', hread', hi⟩ := hagain k
  exact ⟨bytes', main', h', hwrite, hread', hi, hi.write_eq ▸ hwrite⟩

/-- A file of the first version, with an integer and a truth value that is neither zero nor
one, padding that is not zero, the main chunk in the middle, a chunk that nobody uses, and
something behind the last one. -/
def oddFile : List UInt8 :=
  word magic.toNat ++ word 0 ++ word 3 ++ word 1 ++
    (word 1 ++ [0x62, 9, 9, 9] ++ word 2 ++ ([tagInteger] ++ littleEndian 8 (2 ^ 64 - 5)) ++
      [tagBool, 7] ++ word 1 ++ word 4) ++
    (word 1 ++ [0x61, 0x61, 0x62, 9] ++ word 2 ++
      ([tagFunction] ++ word 0 ++ [0, 2] ++ littleEndian 2 0 ++ [0] ++ word 0) ++
      ([tagFunction] ++ word 0 ++ [0, 0] ++ littleEndian 2 3 ++ [0] ++ word 0) ++
      word 3 ++ word 1 ++ word 2 ++ word 3) ++
    (word 0 ++ word 0 ++ word 0) ++ [0xff]

theorem oddFile_normalises : ∃ main h, read {} oddFile = .ok (main, h) ∧
    ∃ bytes' main' h', write h main = .ok bytes' ∧ read {} bytes' = .ok (main', h') ∧
      Isomorphic h main h' main' ∧ write h' main' = .ok bytes' := by
  have haccepted : (read {} oddFile).isOk = true := by decide +kernel
  cases hread : read {} oddFile with
  | error e =>
    rw [hread] at haccepted
    cases haccepted
  | ok p => exact ⟨p.1, p.2, rfl, read_normalises hread {}⟩

end ProgramFile

end TaskVm
