import TaskVm.Proofs.RoundTrip

/-!
# Files that are cut short

Before each part of a file stands how long it is, so that no beginning of a file is a file itself.
What is written is read to its last byte, and wherever it is cut, the reading comes to the cut
before it finds anything else to complain of. For that, numbers and lengths have to fit into the
words they are written as, and a chunk may not have more lines than its code fills.
-/

namespace TaskVm

open ProgramFile

/-- A program of which a file can say how long everything in it is. -/
structure Heap.Measured (h : Heap) (main : ChunkId) : Prop where
  chunks : ∀ c, h.Reaches main c → (h.chunk c).Measured h
  few : (discover h main).length < 2 ^ 32

namespace ProgramFile

variable {h : Heap} {main : ChunkId}

/-- If something can be done with all of some things, then with each of them. -/
theorem exists_of_mapM {α β : Type} {f : α → Except Error β} : ∀ {as : List α} {bs : List β},
    as.mapM f = .ok bs → ∀ a ∈ as, ∃ b, f a = .ok b
  | [], _, _, a, ha => nomatch ha
  | x :: as, _, h, a, ha => by
    rw [List.mapM_cons] at h
    cases hx : f x with
    | error e =>
      rw [hx] at h
      cases h
    | ok y =>
      cases hrest : as.mapM f with
      | error e =>
        rw [hx, hrest] at h
        cases h
      | ok ys =>
        rcases List.mem_cons.mp ha with rfl | ha
        · exact ⟨y, hx⟩
        · exact exists_of_mapM hrest a ha

/-- A constant that has been written is of one of the kinds that files hold. -/
theorem storable_of_constantBytes {order : List ChunkId} {v : Value} {bytes : List UInt8}
    (hw : constantBytes h order v = .ok bytes) (hv : v.Brief h) : v.Storable h := by
  cases v with
  | nil | bool | number => trivial
  | string | function => exact hv
  | _ => cases hw

theorem storable_of_chunkBytes {order : List ChunkId} {c : Chunk} {bytes : List UInt8}
    (hw : chunkBytes h order c = .ok bytes) (hc : c.Measured h) :
    ∀ v ∈ c.constants.toList, v.Storable h := by
  intro v hv
  unfold chunkBytes constantsBytes at hw
  cases hparts : c.constants.toList.mapM (constantBytes h order) with
  | error e =>
    rw [hparts] at hw
    cases hw
  | ok parts =>
    obtain ⟨part, hpart⟩ := exists_of_mapM hparts v hv
    exact storable_of_constantBytes hpart (hc.constants v hv)

/-- What has been written of a program is read as a file to its last byte. -/
theorem reads_write {bytes : List UInt8} (hm : h.Measured main) (hw : write h main = .ok bytes) :
    ∃ raw, Reads ReadM.file bytes (raw, 0) := by
  have hpos : 0 < (discover h main).length :=
    List.length_pos_of_mem (mem_discover.mpr (.refl : h.Reaches main main))
  unfold write at hw
  dsimp only at hw
  cases hparts : (discover h main).mapM fun id => chunkBytes h (discover h main) (h.chunk id) with
  | error e =>
    rw [hparts] at hw
    cases hw
  | ok parts =>
    rw [hparts] at hw
    cases hw
    have heach : ∀ c ∈ discover h main, ∃ bytes,
        chunkBytes h (discover h main) (h.chunk c) = .ok bytes ∧
          Reads ReadM.chunk bytes (readBack h (discover h main) (h.chunk c)) := by
      intro c hc
      obtain ⟨bytes, hbytes⟩ := exists_of_mapM hparts c hc
      have hchunk := hm.chunks c (mem_discover.mp hc)
      exact reads_readBack hm.few hchunk (storable_of_chunkBytes hbytes hchunk)
    -- The parts that are read are those that have been written.
    obtain ⟨parts', hparts', hreads⟩ := reads_each heach
    obtain rfl : parts = parts' := Except.ok.inj (hparts.symm.trans hparts')
    have hlen : ((discover h main).map fun c => readBack h (discover h main) (h.chunk c)).length =
        (discover h main).length := List.length_map _
    rw [← hlen] at hpos ⊢
    exact ⟨_, reads_file hpos (hlen ▸ hm.few) hreads⟩

/-- **A file that is cut short is found to be**: whatever has been written of a program, no part of
it from its beginning is taken for a program, and none is found to be wrong in another way. -/
theorem read_cut_short {bytes front : List UInt8} (hm : h.Measured main)
    (hw : write h main = .ok bytes) (hfront : front <+: bytes) (hne : front ≠ bytes) (g : Heap) :
    ∃ part, read g front = .error (.truncated part) := by
  obtain ⟨raw, hread⟩ := reads_write hm hw
  obtain ⟨part, hpart⟩ := hread.short front hfront hne
  refine ⟨part, ?_⟩
  unfold read readRaw
  rw [StateT.run, hpart]
  rfl

/-- A function whose code has more lines than bytes, of a chunk that has fewer. -/
def uneven : Heap where
  templates := #[{ name := "né", arity := 1, chunk := 0 }]
  chunks := #[
    { code := #[0x01, 0x00, 0x00, 0x61, 0x62], constants := #[.string "s", .number ⟨0⟩]
      lines := #[1, 1, 1, 2, 3, 3, 3] },
    { code := #[0x02, 0x62], constants := #[.function 0, .bool true, .nil], lines := #[-1] }]

theorem uneven_measured : uneven.Measured 1 where
  chunks c hc := by
    have hall : ∀ c ∈ discover uneven 1, (uneven.chunk c).Measured uneven := by decide
    exact hall c (mem_discover.mpr hc)
  few := by decide

theorem uneven_cut_short : uneven.Measured 1 ∧ ∃ bytes, write uneven 1 = .ok bytes ∧
    ∀ n < bytes.length, bytes.take n <+: bytes ∧ bytes.take n ≠ bytes ∧
      ∃ part, read {} (bytes.take n) = .error (.truncated part) := by
  have hwritten : (write uneven 1).isOk = true := by decide +kernel
  cases hw : write uneven 1 with
  | error e =>
    rw [hw] at hwritten
    cases hwritten
  | ok bytes =>
    refine ⟨uneven_measured, bytes, rfl, fun n hn => ?_⟩
    have hfront := List.take_prefix n bytes
    have hne : bytes.take n ≠ bytes := fun h => by
      have hlen := congrArg List.length h
      rw [List.length_take] at hlen
      omega
    exact ⟨hfront, hne, read_cut_short uneven_measured hw hfront hne {}⟩

end ProgramFile

end TaskVm
