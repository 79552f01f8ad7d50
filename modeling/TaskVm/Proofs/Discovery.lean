import TaskVm.ProgramFile.Writer
import Mathlib.Data.List.Forall2
import Mathlib.Logic.Relation

/-!
# Discovery

The writer walks through the chunks of a program once and numbers them on the way. The walk is
given fuel, and what makes that respectable is a bound: with each step either the list of what
is still to be looked at gets shorter, or a chunk is found and its constants are never looked
at again.

Two things are proved of the walk. It finds what the main chunk reaches, each chunk once, the
main chunk first. And in two programs whose chunks correspond it finds corresponding chunks in
the same order, wherever they are kept.
-/

namespace TaskVm

open Relation ProgramFile

/-- A function among the constants of a chunk runs another. -/
def Heap.Inner (h : Heap) (c d : ChunkId) : Prop := d ∈ innerChunks h c

/-- A chunk is part of the program of another. -/
def Heap.Reaches (h : Heap) : ChunkId → ChunkId → Prop := ReflTransGen h.Inner

namespace ProgramFile

variable {h h' : Heap}

theorem length_innerChunks_le (h : Heap) (c : ChunkId) :
    (innerChunks h c).length ≤ (h.chunk c).constants.size := by
  have hle : (innerChunks h c).length ≤ (h.chunk c).constants.toList.length :=
    List.length_filterMap_le ..
  rwa [Array.length_toList] at hle

/-! ## Enough fuel -/

/-- How many constants there are in some chunks, those found left out. -/
def unseenAmong (h : Heap) (found : List ChunkId) : List ChunkId → Nat
  | [] => 0
  | c :: cs => (if c ∈ found then 0 else (h.chunk c).constants.size) + unseenAmong h found cs

/-- How many constants there are in the chunks not found. -/
def unseen (h : Heap) (found : List ChunkId) : Nat :=
  unseenAmong h found (List.range h.chunks.size)

theorem unseenAmong_mono (h : Heap) (found : List ChunkId) (id : ChunkId) :
    ∀ cs, unseenAmong h (found ++ [id]) cs ≤ unseenAmong h found cs
  | [] => Nat.le_refl 0
  | c :: cs => by
    have ih := unseenAmong_mono h found id cs
    unfold unseenAmong
    by_cases hc : c ∈ found
    · simp only [List.mem_append, hc, true_or, if_true]
      omega
    · simp only [hc, if_false]
      split <;> omega

/-- A chunk that is found takes its constants with it. -/
theorem unseenAmong_snoc (h : Heap) {found : List ChunkId} {id : ChunkId} (hid : id ∉ found) :
    ∀ {cs : List ChunkId}, id ∈ cs →
    unseenAmong h (found ++ [id]) cs + (h.chunk id).constants.size ≤ unseenAmong h found cs
  | c :: cs, hmem => by
    unfold unseenAmong
    rcases List.mem_cons.mp hmem with rfl | hmem
    · have hmono := unseenAmong_mono h found id cs
      rw [if_pos (by simp), if_neg hid]
      omega
    · have ih := unseenAmong_snoc h hid hmem
      by_cases hc : c ∈ found
      · simp only [List.mem_append, hc, true_or, if_true]
        omega
      · simp only [hc, if_false]
        split <;> omega

theorem unseen_snoc (h : Heap) {found : List ChunkId} {id : ChunkId} (hid : id ∉ found) :
    unseen h (found ++ [id]) + (h.chunk id).constants.size ≤ unseen h found := by
  by_cases hlt : id < h.chunks.size
  · exact unseenAmong_snoc h hid (List.mem_range.mpr hlt)
  · -- A number that no chunk has stands for a chunk without constants.
    have hnone : h.chunk id = {} := by
      rw [Heap.chunk, Array.getD_eq_getD_getElem?, Array.getElem?_eq_none (Nat.le_of_not_lt hlt)]
      rfl
    have hmono := unseenAmong_mono h found id (List.range h.chunks.size)
    rw [hnone]
    exact hmono

/-- The fuel of the walk is more than the constants there are. -/
theorem unseen_nil (h : Heap) :
    unseen h [] = h.chunks.foldl (fun n c => n + c.constants.size) 0 := by
  have hfold : ∀ (cs : List Chunk) (n : Nat),
      cs.foldl (fun n c => n + c.constants.size) n =
        n + (cs.map fun c => c.constants.size).sum := by
    intro cs
    induction cs with
    | nil => simp
    | cons c cs ih =>
      intro n
      rw [List.foldl_cons, ih, List.map_cons, List.sum_cons, Nat.add_assoc]
  have hamong : ∀ cs : List ChunkId,
      unseenAmong h [] cs = (cs.map fun c => (h.chunk c).constants.size).sum := by
    intro cs
    induction cs with
    | nil => rfl
    | cons c cs ih => rw [unseenAmong, ih, List.map_cons, List.sum_cons, if_neg List.not_mem_nil]
  have hall : (List.range h.chunks.size).map h.chunk = h.chunks.toList := by
    refine List.ext_getElem (by simp) fun i hi hi' => ?_
    have hlt : i < h.chunks.size := by simpa using hi
    simp [Heap.chunk, hlt]
  rw [← Array.foldl_toList, hfold, Nat.zero_add, unseen, hamong, ← hall, List.map_map]
  rfl

/-! ## What is found -/

/-- What a walk that has found some chunks finds, given what it is still to look at. -/
structure Discovers (h : Heap) (found todo all : List ChunkId) : Prop where
  behind : ∃ new, all = found ++ new
  once : all.Nodup
  looked : ∀ c ∈ todo, c ∈ all
  reached : ∀ c ∈ all, c ∈ found ∨ ∃ t ∈ todo, h.Reaches t c
  /-- What is inside a chunk that the walk finds, it finds as well. -/
  closed : ∀ c ∈ all, c ∈ found ∨ ∀ d, h.Inner c d → d ∈ all

namespace Discovers

variable {h : Heap} {found rest all : List ChunkId} {id : ChunkId}

/-- A chunk that has been found already adds nothing. -/
theorem skip (hd : Discovers h found rest all) (hid : id ∈ found) :
    Discovers h found (id :: rest) all := by
  obtain ⟨⟨new, hnew⟩, honce, hlooked, hreached, hclosed⟩ := hd
  refine ⟨⟨new, hnew⟩, honce, ?_, ?_, hclosed⟩
  · intro c hc
    rcases List.mem_cons.mp hc with rfl | hc
    · rw [hnew]
      exact List.mem_append_left new hid
    · exact hlooked c hc
  · intro c hc
    rcases hreached c hc with hc | ⟨t, ht, hreach⟩
    · exact .inl hc
    · exact .inr ⟨t, List.mem_cons_of_mem id ht, hreach⟩

/-- A new chunk has been found, and what is inside it is looked at before the rest. -/
theorem look (hd : Discovers h (found ++ [id]) (innerChunks h id ++ rest) all) :
    Discovers h found (id :: rest) all := by
  obtain ⟨⟨new, hnew⟩, honce, hlooked, hreached, hclosed⟩ := hd
  -- What is new to look at has been found by way of `id`, or was to be looked at anyway.
  have hcases : ∀ c ∈ found ++ [id], c ∈ found ∨ c = id := fun c hc =>
    (List.mem_append.mp hc).imp_right List.mem_singleton.mp
  refine ⟨⟨id :: new, by rw [hnew]; simp⟩, honce, ?_, ?_, ?_⟩
  · intro c hc
    rcases List.mem_cons.mp hc with rfl | hc
    · rw [hnew]
      simp
    · exact hlooked c (List.mem_append_right _ hc)
  · intro c hc
    rcases hreached c hc with hc | ⟨t, ht, hreach⟩
    · rcases hcases c hc with hc | rfl
      · exact .inl hc
      · exact .inr ⟨c, List.mem_cons_self, .refl⟩
    · rcases List.mem_append.mp ht with ht | ht
      · exact .inr ⟨id, List.mem_cons_self, .head ht hreach⟩
      · exact .inr ⟨t, List.mem_cons_of_mem id ht, hreach⟩
  · intro c hc
    rcases hclosed c hc with hc | hc
    · rcases hcases c hc with hc | rfl
      · exact .inl hc
      · exact .inr fun d hd => hlooked d (List.mem_append_left rest hd)
    · exact .inr hc

end Discovers

theorem discoverFrom_discovers (h : Heap) : ∀ (fuel : Nat) (found todo : List ChunkId),
    todo.length + unseen h found < fuel → found.Nodup →
    Discovers h found todo (discoverFrom h fuel found todo)
  | fuel + 1, found, [], _, honce => by
    rw [discoverFrom]
    exact ⟨⟨[], by simp⟩, honce, by simp, fun c hc => .inl hc, fun c hc => .inl hc⟩
  | fuel + 1, found, id :: rest, hfuel, honce => by
    rw [discoverFrom]
    rw [List.length_cons] at hfuel
    split
    · rename_i hmem
      exact (discoverFrom_discovers h fuel found rest (by omega) honce).skip
        (List.contains_iff_mem.mp hmem)
    · rename_i hmem
      have hid : id ∉ found := fun hid => hmem (List.contains_iff_mem.mpr hid)
      -- What is inside the chunk is new to look at, but its constants are no longer unseen.
      have hless := unseen_snoc h hid
      have hinner := length_innerChunks_le h id
      have honce' : (found ++ [id]).Nodup :=
        List.nodup_append.mpr ⟨honce, by simp, fun a ha b hb hab =>
          hid (List.mem_singleton.mp hb ▸ hab ▸ ha)⟩
      exact (discoverFrom_discovers h fuel (found ++ [id]) (innerChunks h id ++ rest)
        (by rw [List.length_append]; omega) honce').look

theorem discover_discovers (h : Heap) (main : ChunkId) :
    Discovers h [] [main] (discover h main) := by
  refine discoverFrom_discovers h _ [] [main] ?_ List.nodup_nil
  rw [unseen_nil, List.length_singleton]
  omega

/-- **A walk finds what the main chunk reaches**, and nothing else. -/
theorem mem_discover {main c : ChunkId} : c ∈ discover h main ↔ h.Reaches main c := by
  have hd := discover_discovers h main
  constructor
  · intro hc
    rcases hd.reached c hc with hc | ⟨t, ht, hreach⟩
    · cases hc
    · rwa [List.mem_singleton.mp ht] at hreach
  · intro hreach
    induction hreach with
    | refl => exact hd.looked main (List.mem_singleton.mpr rfl)
    | tail _ hinner ih =>
      rcases hd.closed _ ih with hc | hc
      · cases hc
      · exact hc _ hinner

theorem nodup_discover (h : Heap) (main : ChunkId) : (discover h main).Nodup :=
  (discover_discovers h main).once

/-- The main chunk comes first. -/
theorem discover_head (h : Heap) (main : ChunkId) : (discover h main)[0]? = some main := by
  have hfuel := unseen_nil h
  have hlen := length_innerChunks_le h main
  have hless : unseen h [main] + (h.chunk main).constants.size ≤ unseen h [] :=
    unseen_snoc h List.not_mem_nil
  have hstep : discover h main = discoverFrom h
      (h.chunks.foldl (fun n c => n + c.constants.size) 0 + 1) [main]
      (innerChunks h main ++ []) := rfl
  obtain ⟨⟨new, hnew⟩, -⟩ := discoverFrom_discovers h
    (h.chunks.foldl (fun n c => n + c.constants.size) 0 + 1) [main] (innerChunks h main ++ [])
    (by rw [List.append_nil]; omega) (by simp)
  rw [hstep, hnew]
  rfl

/-! ## Programs that correspond -/

/-- Nothing corresponds to two things, in either direction. -/
def Unique (R : ChunkId → ChunkId → Prop) : Prop :=
  ∀ c d c' d', R c d → R c' d' → (c = c' ↔ d = d')

theorem mem_iff_of_forall₂ {R : ChunkId → ChunkId → Prop} (hu : Unique R) {c d : ChunkId}
    (hr : R c d) {cs ds : List ChunkId} (h : List.Forall₂ R cs ds) : c ∈ cs ↔ d ∈ ds := by
  induction h with
  | nil => simp
  | @cons c' d' cs ds hr' _ ih => rw [List.mem_cons, List.mem_cons, ih, hu c d c' d' hr hr']

theorem idxOf?_of_forall₂ {R : ChunkId → ChunkId → Prop} (hu : Unique R) {c d : ChunkId}
    (hr : R c d) {cs ds : List ChunkId} (h : List.Forall₂ R cs ds) :
    cs.idxOf? c = ds.idxOf? d := by
  induction h with
  | nil => rfl
  | @cons c' d' cs ds hr' _ ih =>
    have hsame : (c' == c) = (d' == d) := by
      rw [Bool.eq_iff_iff, beq_iff_eq, beq_iff_eq]
      exact hu c' d' c d hr' hr
    rw [List.idxOf?_cons, List.idxOf?_cons, ih, hsame]

/-- **Programs that correspond are discovered alike.** -/
theorem discoverFrom_forall₂ {R : ChunkId → ChunkId → Prop} (hu : Unique R)
    (hinner : ∀ c d, R c d → List.Forall₂ R (innerChunks h c) (innerChunks h' d)) :
    ∀ {fuel fuel' : Nat} {found found' todo todo' : List ChunkId},
    todo.length + unseen h found < fuel → todo'.length + unseen h' found' < fuel' →
    List.Forall₂ R found found' → List.Forall₂ R todo todo' →
    List.Forall₂ R (discoverFrom h fuel found todo) (discoverFrom h' fuel' found' todo')
  | fuel + 1, fuel' + 1, found, found', [], [], hfuel, hfuel', hfound, .nil => hfound
  | fuel + 1, fuel' + 1, found, found', id :: rest, id' :: rest', hfuel, hfuel', hfound,
      .cons hr hrest => by
    -- Both sides have found the one, or neither has found the other.
    have hmem := mem_iff_of_forall₂ hu hr hfound
    rw [List.length_cons] at hfuel hfuel'
    rw [discoverFrom, discoverFrom]
    by_cases hid : id ∈ found
    · rw [if_pos (List.contains_iff_mem.mpr hid), if_pos (List.contains_iff_mem.mpr (hmem.mp hid))]
      exact discoverFrom_forall₂ hu hinner (by omega) (by omega) hfound hrest
    · have hid' : id' ∉ found' := fun h => hid (hmem.mpr h)
      have hless := unseen_snoc h hid
      have hless' := unseen_snoc h' hid'
      have hlen := length_innerChunks_le h id
      have hlen' := length_innerChunks_le h' id'
      rw [if_neg (fun h => hid (List.contains_iff_mem.mp h)),
        if_neg (fun h => hid' (List.contains_iff_mem.mp h))]
      refine discoverFrom_forall₂ hu hinner ?_ ?_ ?_ ?_
      · rw [List.length_append]
        omega
      · rw [List.length_append]
        omega
      · exact List.rel_append hfound (.cons hr .nil)
      · exact List.rel_append (hinner id id' hr) hrest

theorem discover_forall₂ {R : ChunkId → ChunkId → Prop} (hu : Unique R)
    (hinner : ∀ c d, R c d → List.Forall₂ R (innerChunks h c) (innerChunks h' d))
    {main main' : ChunkId} (hr : R main main') :
    List.Forall₂ R (discover h main) (discover h' main') := by
  refine discoverFrom_forall₂ hu hinner ?_ ?_ .nil (.cons hr .nil)
  · rw [unseen_nil, List.length_singleton]
    omega
  · rw [unseen_nil, List.length_singleton]
    omega

end ProgramFile

end TaskVm
