import TaskVm.Proofs.Discovery

/-!
# Programs that are the same

A program is known by its chunks: their code, their lines, their constants, what is declared
of the functions among these, and which functions have a chunk in common. Where in a heap the
chunks are kept is not part of it. A file depends on nothing else.
-/

namespace TaskVm

open ProgramFile

/-- A constant is the same as another, given which chunks correspond. -/
inductive SameConstant (h h' : Heap) (R : ChunkId → ChunkId → Prop) : Value → Value → Prop where
  | nil : SameConstant h h' R .nil .nil
  | bool (b : Bool) : SameConstant h h' R (.bool b) (.bool b)
  /-- The same number, bit for bit. -/
  | number (n : Number) : SameConstant h h' R (.number n) (.number n)
  | string (s : String) : SameConstant h h' R (.string s) (.string s)
  | function {i j : TemplateId}
      (declared : { h.template i with chunk := 0 } = { h'.template j with chunk := 0 })
      (chunk : R (h.template i).chunk (h'.template j).chunk) :
      SameConstant h h' R (.function i) (.function j)

/-- The chunks of a program correspond to those of another, beginning with the main ones. -/
structure Isomorphism (h : Heap) (main : ChunkId) (h' : Heap) (main' : ChunkId)
    (R : ChunkId → ChunkId → Prop) : Prop where
  main : R main main'
  /-- Two functions have a chunk in common if and only if those they correspond to have. -/
  shared : Unique R
  code : ∀ c c', R c c' → (h'.chunk c').code = (h.chunk c).code
  lines : ∀ c c', R c c' → (h'.chunk c').lines = (h.chunk c).lines
  constants : ∀ c c', R c c' → List.Forall₂ (SameConstant h h' R)
    (h.chunk c).constants.toList (h'.chunk c').constants.toList

/-- Two programs are the same but for where they are kept. -/
def Isomorphic (h : Heap) (main : ChunkId) (h' : Heap) (main' : ChunkId) : Prop :=
  ∃ R, Isomorphism h main h' main' R

namespace Isomorphism

variable {h h' : Heap} {main main' : ChunkId} {R : ChunkId → ChunkId → Prop}

/-- What is done with each of some things comes to the same if it does for each. -/
theorem mapM_eq_mapM {α β γ ε : Type} {f : α → Except ε γ} {g : β → Except ε γ} {as : List α}
    {bs : List β} (h : List.Forall₂ (fun a b => f a = g b) as bs) : as.mapM f = bs.mapM g := by
  induction h with
  | nil => rfl
  | cons hab _ ih => rw [List.mapM_cons, List.mapM_cons, hab, ih]

theorem forall₂_inner {vs vs' : List Value} (hvs : List.Forall₂ (SameConstant h h' R) vs vs') :
    List.Forall₂ R
      (vs.filterMap fun | .function t => some (h.template t).chunk | _ => none)
      (vs'.filterMap fun | .function t => some (h'.template t).chunk | _ => none) := by
  induction hvs with
  | nil => exact .nil
  | cons hv _ ih =>
    cases hv with
    | function declared chunk => exact .cons chunk ih
    | _ => exact ih

theorem innerChunks (hi : Isomorphism h main h' main' R) {c c' : ChunkId} (hc : R c c') :
    List.Forall₂ R (innerChunks h c) (innerChunks h' c') :=
  forall₂_inner (hi.constants c c' hc)

theorem discover (hi : Isomorphism h main h' main' R) :
    List.Forall₂ R (discover h main) (discover h' main') :=
  discover_forall₂ hi.shared (fun _ _ => hi.innerChunks) hi.main

theorem constantBytes_eq (hu : Unique R) {order order' : List ChunkId}
    (ho : List.Forall₂ R order order') {v v' : Value} (hv : SameConstant h h' R v v') :
    constantBytes h order v = constantBytes h' order' v' := by
  cases hv with
  | function declared chunk =>
    rename_i i j
    have hbytes : ∀ (t : Template) (n : Nat),
        functionBytes t n = functionBytes { t with chunk := 0 } n := fun _ _ => rfl
    show Except.ok (tagFunction :: functionBytes (h.template i) _) =
      .ok (tagFunction :: functionBytes (h'.template j) _)
    rw [hbytes, declared, ← hbytes, idxOf?_of_forall₂ hu chunk ho]
  | _ => rfl

theorem constantsBytes_eq (hu : Unique R) {order order' : List ChunkId}
    (ho : List.Forall₂ R order order') {vs vs' : List Value}
    (hvs : List.Forall₂ (SameConstant h h' R) vs vs') :
    constantsBytes h order vs = constantsBytes h' order' vs' := by
  have hparts : vs.mapM (constantBytes h order) = vs'.mapM (constantBytes h' order') :=
    mapM_eq_mapM (hvs.imp fun _ _ => constantBytes_eq hu ho)
  rw [constantsBytes, constantsBytes, hparts, hvs.length_eq]

theorem chunkBytes_eq (hi : Isomorphism h main h' main' R) {order order' : List ChunkId}
    (ho : List.Forall₂ R order order') {c c' : ChunkId} (hc : R c c') :
    chunkBytes h order (h.chunk c) = chunkBytes h' order' (h'.chunk c') := by
  rw [chunkBytes, chunkBytes, constantsBytes_eq hi.shared ho (hi.constants c c' hc),
    hi.code c c' hc, hi.lines c c' hc]

theorem write_eq (hi : Isomorphism h main h' main' R) : write h main = write h' main' := by
  have ho := hi.discover
  rw [write, write, mapM_eq_mapM (ho.imp fun _ _ => hi.chunkBytes_eq ho), ho.length_eq]

end Isomorphism

/-- **The file of a program depends on the program only.** -/
theorem Isomorphic.write_eq {h h' : Heap} {main main' : ChunkId}
    (hi : Isomorphic h main h' main') : write h main = write h' main' := by
  obtain ⟨R, hR⟩ := hi
  exact hR.write_eq

end TaskVm
