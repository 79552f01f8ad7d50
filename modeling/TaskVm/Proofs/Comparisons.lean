import TaskVm.Heap.Equality
import Mathlib.Data.Finset.Card
import Mathlib.Data.Finset.Lattice.Fold
import Mathlib.Data.Finset.Prod
import Mathlib.Logic.Relation
import Mathlib.Tactic.Linarith

/-!
# Comparisons come to an end

Collections may contain themselves, and still every comparison of them ends: a pair of
collections that is entered is never entered again, and there are only so many pairs. What a
comparison does not remember is the functions it is in, so it matters that a function cannot
be among its own constants. In code that has come out of files it cannot: there a function is
made after all that it consists of.

So the limit that comparisons are given is never reached, as long as code is of that kind.
-/

namespace TaskVm

/-- A constant of one of the kinds that a file can hold. -/
def Value.Literal : Value → Prop
  | .nil | .bool _ | .number _ | .string _ | .function _ => True
  | _ => False

instance : (v : Value) → Decidable v.Literal
  | .nil | .bool _ | .number _ | .string _ | .function _ => inferInstanceAs (Decidable True)
  | .array _ | .map _ | .closure _ | .native _ | .boundMethod _ _ | .channel _ | .task _
  | .error _ => inferInstanceAs (Decidable False)

/-- All code on a heap is of the kind that files hold. -/
structure Heap.Coded (h : Heap) : Prop where
  literal : ∀ c, ∀ v ∈ (h.chunk c).constants, v.Literal
  /-- The functions among the constants are there. -/
  closed : ∀ c j, .function j ∈ (h.chunk c).constants → j < h.templates.size
  /-- A function comes after those among its constants, and theirs. -/
  founded : ∃ rank : TemplateId → Nat, ∀ i < h.templates.size, ∀ j,
    .function j ∈ (h.chunk (h.template i).chunk).constants → rank j < rank i

/-- The same code. -/
theorem Heap.Coded.of_eq {h h' : Heap} (hc : h.Coded)
    (hchunks : ∀ c, (h'.chunk c).constants = (h.chunk c).constants)
    (htemplates : h'.templates = h.templates) : h'.Coded where
  literal c v hv := hc.literal c v (hchunks c ▸ hv)
  closed c j hj := by
    rw [htemplates]
    exact hc.closed c j (hchunks c ▸ hj)
  founded := by
    obtain ⟨rank, hrank⟩ := hc.founded
    refine ⟨rank, fun i hi j hj => hrank i (htemplates ▸ hi) j ?_⟩
    rwa [hchunks, show h'.template i = h.template i by rw [Heap.template, htemplates]; rfl] at hj

/-- The function that a value is, or that a method is bound to, is of a kind. -/
def Value.Of (P : TemplateId → Prop) : Value → Prop
  | .function i => P i
  | .boundMethod receiver _ => receiver.Of P
  | _ => True

instance Value.decidableOf {P : TemplateId → Prop} [DecidablePred P] :
    (v : Value) → Decidable (v.Of P)
  | .function i => inferInstanceAs (Decidable (P i))
  | .boundMethod receiver _ => Value.decidableOf (P := P) receiver
  | .nil | .bool _ | .number _ | .string _ | .array _ | .map _ | .closure _ | .native _
  | .channel _ | .task _ | .error _ => inferInstanceAs (Decidable True)

theorem Value.Of.mono {P Q : TemplateId → Prop} (hPQ : ∀ i, P i → Q i) :
    ∀ {v : Value}, v.Of P → v.Of Q
  | .function i, hv => hPQ i hv
  | .boundMethod receiver _, hv => Value.Of.mono (v := receiver) hPQ hv
  | .nil, _ | .bool _, _ | .number _, _ | .string _, _ | .array _, _ | .map _, _ | .closure _, _
  | .native _, _ | .channel _, _ | .task _, _ | .error _, _ => trivial

/-- A further function, of code that is there. It comes after all others. -/
theorem Heap.Coded.newTemplate {h : Heap} (hc : h.Coded) (t : Template) :
    (h.newTemplate t).2.Coded where
  literal := hc.literal
  closed c j hj := by
    have hlt := hc.closed c j hj
    show j < (h.templates.push t).size
    rw [Array.size_push]
    omega
  founded := by
    obtain ⟨rank, hrank⟩ := hc.founded
    -- The new function may have any of the others among its constants, and is in none of them.
    refine ⟨fun i => if i < h.templates.size then rank i
      else (Finset.range h.templates.size).sup rank + 1, fun i hi j hj => ?_⟩
    have hj' := hc.closed _ j hj
    have hi : i < h.templates.size + 1 := by
      rw [← Array.size_push t]
      exact hi
    dsimp only
    rw [if_pos hj']
    by_cases hold : i < h.templates.size
    · rw [if_pos hold]
      refine hrank i hold j ?_
      have hsame : (h.newTemplate t).2.template i = h.template i := by
        simp only [Heap.template, Heap.newTemplate, Array.getD_eq_getD_getElem?]
        rw [Array.getElem?_push, if_neg (by omega)]
      rwa [hsame] at hj
    · rw [if_neg hold]
      have hle := Finset.le_sup (f := rank) (Finset.mem_range.mpr hj')
      omega

namespace Heap

open Relation

variable {h : Heap}

/-! ## Comparing one after the other -/

/-- If each comparison ends, whatever has been seen, then so do all of them. -/
theorem allEqual_ends {eq : Seen → Value → Value → Option (Bool × Seen)} {I : Seen → Prop} :
    ∀ {pairs : List (Value × Option Value)} {seen : Seen},
    (∀ seen, I seen → ∀ a b, (a, some b) ∈ pairs → ∃ r, eq seen a b = some r ∧ I r.2) →
    I seen → ∃ r, allEqual eq seen pairs = some r ∧ I r.2
  | [], seen, _, hseen => ⟨_, rfl, hseen⟩
  | (_, none) :: _, seen, _, hseen => ⟨_, rfl, hseen⟩
  | (a, some b) :: rest, seen, heq, hseen => by
    obtain ⟨⟨same, seen'⟩, hr, hseen'⟩ := heq seen hseen a b List.mem_cons_self
    unfold allEqual
    rw [hr]
    cases same with
    | false => exact ⟨_, rfl, hseen'⟩
    | true =>
      refine allEqual_ends (fun s hs x y hxy => ?_) hseen'
      exact heq s hs x y (List.mem_cons_of_mem _ hxy)

theorem mem_of_elementPairs {xs ys : Array Value} {a b : Value}
    (hab : (a, some b) ∈ elementPairs xs ys) : a ∈ xs := by
  have ha := (List.of_mem_zip hab).1
  exact Array.mem_toList_iff.mp ha

theorem mem_of_entryPairs {m n : OrderedMap Value} {a b : Value}
    (hab : (a, some b) ∈ entryPairs m n) : ∃ e ∈ m.entries, e.2 = a := by
  obtain ⟨e, he, hpair⟩ := List.mem_map.mp hab
  obtain ⟨ha, -⟩ := Prod.mk.inj hpair
  exact ⟨e, Array.mem_toList_iff.mp he, ha⟩

/-! ## Functions -/

/-- A function that is there, with constants that are scalars or functions of this kind. -/
inductive Plain (h : Heap) : TemplateId → Prop where
  | of_constants {i : TemplateId} (hi : i < h.templates.size)
      (hl : ∀ v ∈ (h.chunk (h.template i).chunk).constants, v.Literal)
      (hf : ∀ j, .function j ∈ (h.chunk (h.template i).chunk).constants → h.Plain j) : h.Plain i

/-- What is code from a file is of this kind. -/
theorem Coded.plain (hc : h.Coded) {i : TemplateId} (hi : i < h.templates.size) : h.Plain i := by
  obtain ⟨rank, hrank⟩ := hc.founded
  induction hn : rank i using Nat.strongRecOn generalizing i with
  | ind n ih =>
    refine .of_constants hi (hc.literal _) fun j hj => ?_
    exact ih (rank j) (hn ▸ hrank i hi j hj) (hc.closed _ j hj) rfl

/-- One function is among the constants of another. -/
def IsConstant (h : Heap) (j i : TemplateId) : Prop :=
  .function j ∈ (h.chunk (h.template i).chunk).constants

/-- No function is inside itself. -/
theorem Plain.not_inside {i : TemplateId} (hi : h.Plain i) : ¬TransGen h.IsConstant i i := by
  induction hi with
  | of_constants _ _ _ ih =>
    intro hself
    -- A way from a function to itself is one from its constant to itself as well.
    obtain ⟨j, hij, hji⟩ := TransGen.tail'_iff.mp hself
    exact ih j hji (TransGen.head' hji hij)

open Classical in
/-- The functions inside a function. -/
noncomputable def inside (h : Heap) (i : TemplateId) : Finset TemplateId :=
  (Finset.range h.templates.size).filter fun j => TransGen h.IsConstant j i

theorem mem_inside {i j : TemplateId} :
    j ∈ h.inside i ↔ j < h.templates.size ∧ TransGen h.IsConstant j i := by
  simp [inside]

theorem Plain.lt_size {i : TemplateId} (hi : h.Plain i) : i < h.templates.size := by
  cases hi with
  | of_constants hi _ _ => exact hi

/-- There are fewer functions inside a constant of a function. -/
theorem inside_lt {i j : TemplateId} (hj : h.Plain j) (hji : h.IsConstant j i) :
    (h.inside j).card < (h.inside i).card := by
  refine Finset.card_lt_card (Finset.ssubset_iff.mpr ⟨j, ?_, fun k hk => ?_⟩)
  · exact fun hself => hj.not_inside (mem_inside.mp hself).2
  · rcases Finset.mem_insert.mp hk with rfl | hk
    · exact mem_inside.mpr ⟨hj.lt_size, .single hji⟩
    · obtain ⟨hsize, hkj⟩ := mem_inside.mp hk
      exact mem_inside.mpr ⟨hsize, hkj.tail hji⟩

theorem Plain.inside_lt_size {i : TemplateId} (hi : h.Plain i) :
    (h.inside i).card < h.templates.size := by
  have hlt : (h.inside i).card < (Finset.range h.templates.size).card := by
    refine Finset.card_lt_card (Finset.ssubset_iff.mpr ⟨i, ?_, fun k hk => ?_⟩)
    · exact fun hself => hi.not_inside (mem_inside.mp hself).2
    · rcases Finset.mem_insert.mp hk with rfl | hk
      · exact Finset.mem_range.mpr hi.lt_size
      · exact Finset.mem_range.mpr (mem_inside.mp hk).1
  rwa [Finset.card_range] at hlt

/-- Two functions are compared at once, or they are different and have the same code, and their
constants are compared, without a memory of what has been seen. -/
theorem equalWithin_functions (i j : TemplateId) :
    (∃ same, ∀ limit seen,
      h.equalWithin (limit + 1) seen (.function i) (.function j) = some (same, seen)) ∨
    (i ≠ j ∧ h.sameHead (h.template i) (h.template j) = true ∧ ∃ lines : Bool, ∀ limit seen,
      h.equalWithin (limit + 1) seen (.function i) (.function j) =
        (allEqual (fun _ => h.equalWithin limit []) []
          (elementPairs (h.chunk (h.template i).chunk).constants
            (h.chunk (h.template j).chunk).constants)).map fun r => (r.1 && lines, seen)) := by
  by_cases hij : i = j
  · exact .inl ⟨true, fun limit seen => by rw [equalWithin, if_pos hij]⟩
  · cases hsame : h.sameHead (h.template i) (h.template j) &&
        (h.chunk (h.template i).chunk).constants.size ==
          (h.chunk (h.template j).chunk).constants.size with
    | false =>
      exact .inl ⟨false, fun limit seen => by simp only [equalWithin, if_neg hij, hsame]; rfl⟩
    | true =>
      refine .inr ⟨hij, (Bool.and_eq_true_iff.mp hsame).1, (h.chunk (h.template i).chunk).lines ==
        (h.chunk (h.template j).chunk).lines, fun limit seen => ?_⟩
      simp only [equalWithin, if_neg hij, hsame, if_pos]
      cases allEqual (fun _ => h.equalWithin limit []) [] _ with
      | none => rfl
      | some r => rfl

/-- The comparison of two functions ends if those of their constants end. -/
theorem functions_end {limit : Nat} {i j : TemplateId} (seen : Seen)
    (hparts : i ≠ j → h.sameHead (h.template i) (h.template j) = true → ∀ a b,
      (a, some b) ∈ elementPairs (h.chunk (h.template i).chunk).constants
        (h.chunk (h.template j).chunk).constants → ∃ r, h.equalWithin limit [] a b = some r) :
    ∃ same, h.equalWithin (limit + 1) seen (.function i) (.function j) = some (same, seen) := by
  rcases equalWithin_functions (h := h) i j with ⟨same, hsame⟩ | ⟨hne, hhead, lines, heq⟩
  · exact ⟨same, hsame limit seen⟩
  · have hall : ∃ r, allEqual (fun _ => h.equalWithin limit []) []
        (elementPairs (h.chunk (h.template i).chunk).constants
          (h.chunk (h.template j).chunk).constants) = some r ∧ True := by
      refine allEqual_ends (I := fun _ => True) (fun _ _ a b hab => ?_) trivial
      obtain ⟨r, hr⟩ := hparts hne hhead a b hab
      exact ⟨r, hr, trivial⟩
    obtain ⟨r, hr, -⟩ := hall
    exact ⟨r.1 && lines, by rw [heq, hr]; rfl⟩

/-- Anything is compared with a constant at once, unless both are functions. -/
theorem literal_ends {a b : Value} (ha : a.Literal)
    (hf : ∀ i j, a = .function i → b ≠ .function j) (limit : Nat) (seen : Seen) :
    ∃ same, h.equalWithin (limit + 1) seen a b = some (same, seen) := by
  cases a with
  | function i =>
    cases b with
    | function j => exact absurd rfl (hf i j rfl)
    | _ => exact ⟨_, rfl⟩
  | nil | bool | number | string => cases b <;> exact ⟨_, rfl⟩
  | _ => exact ha.elim

/-- Constants are compared in no time, but for the functions among them. -/
theorem constants_end {limit : Nat} {i : TemplateId}
    (hl : ∀ v ∈ (h.chunk (h.template i).chunk).constants, v.Literal)
    (hf : ∀ k, h.IsConstant k i → ∀ seen l,
      ∃ same, h.equalWithin (limit + 1) seen (.function k) (.function l) = some (same, seen))
    (seen : Seen) (j : TemplateId) :
    ∃ same, h.equalWithin (limit + 2) seen (.function i) (.function j) = some (same, seen) := by
  refine functions_end seen fun _ _ a b hab => ?_
  have ha := mem_of_elementPairs hab
  by_cases hboth : ∃ k l, a = .function k ∧ b = .function l
  · obtain ⟨k, l, rfl, rfl⟩ := hboth
    obtain ⟨same, hsame⟩ := hf k ha [] l
    exact ⟨_, hsame⟩
  · obtain ⟨same, hsame⟩ := literal_ends (hl a ha) (b := b)
      (fun k l hk hl => hboth ⟨k, l, hk, hl⟩) limit []
    exact ⟨_, hsame⟩

/-- A function is compared without going deeper than there are functions inside it. -/
theorem Plain.ends {i : TemplateId} (hi : h.Plain i) :
    ∀ {limit : Nat}, (h.inside i).card + 2 ≤ limit → ∀ seen j,
      ∃ same, h.equalWithin limit seen (.function i) (.function j) = some (same, seen) := by
  induction hi with
  | @of_constants i _ hl hf ih =>
    intro limit hlimit
    obtain ⟨limit, rfl⟩ := Nat.exists_eq_add_of_le' (Nat.le_trans (by omega) hlimit : 2 ≤ limit)
    refine constants_end hl fun k hk => ih k hk ?_
    have hless := inside_lt (hf k hk) hk
    omega

/-- However a function is compared with others, there is no need to go deeper than there are
functions. -/
def FunctionEnds (h : Heap) (i : TemplateId) : Prop :=
  ∀ {limit : Nat}, h.templates.size + 2 ≤ limit → ∀ seen j,
    ∃ same, h.equalWithin limit seen (.function i) (.function j) = some (same, seen)

theorem Plain.functionEnds {i : TemplateId} (hi : h.Plain i) : h.FunctionEnds i := by
  intro limit hlimit
  have hless := hi.inside_lt_size
  exact hi.ends (by omega)

/-- In code from a file all functions are like that, even a number that no function has. -/
theorem Coded.functionEnds (hc : h.Coded) (i : TemplateId) : h.FunctionEnds i := by
  intro limit hlimit
  obtain ⟨limit, rfl⟩ := Nat.exists_eq_add_of_le' (Nat.le_trans (by omega) hlimit : 2 ≤ limit)
  refine constants_end (hc.literal _) fun k hk => ?_
  have hplain := hc.plain (hc.closed _ k hk)
  have hless := hplain.inside_lt_size
  exact hplain.ends (by omega)

/-! ## Collections -/

/-- Something that takes the larger of numbers is at least each of them. -/
theorem foldl_grows {α : Type} {g : Nat → α → Nat} (hg : ∀ d a, d ≤ g d a) (xs : Array α)
    (d : Nat) :
    d ≤ xs.foldl g d ∧ ∀ a ∈ xs, ∃ d', g d' a ≤ xs.foldl g d := by
  rw [← Array.foldl_toList]
  simp only [← Array.mem_toList_iff]
  induction xs.toList generalizing d with
  | nil => exact ⟨Nat.le_refl _, by simp⟩
  | cons x xs ih =>
    obtain ⟨hle, hmem⟩ := ih (g d x)
    refine ⟨(hg d x).trans hle, fun a ha => ?_⟩
    rcases List.mem_cons.mp ha with rfl | ha
    · exact ⟨d, hle⟩
    · exact hmem a ha

theorem depth_le_foldl {α : Type} {f : α → Nat} {xs : Array α} {d : Nat} {a : α} (ha : a ∈ xs) :
    f a ≤ xs.foldl (fun d a => max d (f a)) d := by
  obtain ⟨d', hd'⟩ := (foldl_grows (fun _ _ => Nat.le_max_left _ _) xs d).2 a ha
  exact (Nat.le_max_right _ _).trans hd'

theorem le_foldl_max {α : Type} (f : α → Nat) (xs : Array α) (d : Nat) :
    d ≤ xs.foldl (fun d a => max d (f a)) d :=
  (foldl_grows (fun _ _ => Nat.le_max_left _ _) xs d).1

/-- What has elements is among the arrays. -/
theorem array_mem {i : ArrayId} {v : Value} (hv : v ∈ h.array i) : h.array i ∈ h.arrays := by
  unfold array at hv ⊢
  rw [Array.getD_eq_getD_getElem?] at hv ⊢
  cases hx : h.arrays[i]? with
  | none =>
    rw [hx] at hv
    cases Array.not_mem_empty v hv
  | some xs => exact Array.mem_of_getElem? hx

theorem map_mem {i : MapId} {e : String × Value} (he : e ∈ (h.map i).entries) :
    h.map i ∈ h.maps := by
  unfold map at he ⊢
  rw [Array.getD_eq_getD_getElem?] at he ⊢
  cases hx : h.maps[i]? with
  | none =>
    rw [hx] at he
    cases Array.not_mem_empty e he
  | some m => exact Array.mem_of_getElem? hx

theorem chunk_mem {c : ChunkId} {v : Value} (hv : v ∈ (h.chunk c).constants) :
    h.chunk c ∈ h.chunks := by
  unfold chunk at hv ⊢
  rw [Array.getD_eq_getD_getElem?] at hv ⊢
  cases hx : h.chunks[c]? with
  | none =>
    rw [hx] at hv
    cases Array.not_mem_empty v hv
  | some chunk => exact Array.mem_of_getElem? hx

/-- The elements of an array are not deeper than anything on the heap. -/
theorem depth_le_deepest_of_array {i : ArrayId} {v : Value} (hv : v ∈ h.array i) :
    v.depth ≤ h.deepest := by
  have hmem := array_mem hv
  unfold deepest
  extract_lets inArrays inMaps
  have harrays : v.depth ≤ inArrays := by
    obtain ⟨d, hd⟩ := (foldl_grows (g := fun d (a : Array Value) =>
      a.foldl (fun d v => max d v.depth) d) (fun d a => le_foldl_max _ a d) h.arrays 0).2 _ hmem
    exact (depth_le_foldl (f := Value.depth) hv).trans hd
  have hmaps : inArrays ≤ inMaps :=
    (foldl_grows (fun d (m : OrderedMap Value) => le_foldl_max _ m.entries d) h.maps _).1
  exact (harrays.trans hmaps).trans
    (foldl_grows (fun d (c : Chunk) => le_foldl_max _ c.constants d) h.chunks _).1

/-- Nor are the values of a map. -/
theorem depth_le_deepest_of_map {i : MapId} {e : String × Value} (he : e ∈ (h.map i).entries) :
    e.2.depth ≤ h.deepest := by
  have hmem := map_mem he
  unfold deepest
  extract_lets inArrays inMaps
  have hmaps : e.2.depth ≤ inMaps := by
    obtain ⟨d, hd⟩ := (foldl_grows (g := fun d (m : OrderedMap Value) =>
      m.entries.foldl (fun d e => max d e.2.depth) d) (fun d m => le_foldl_max _ m.entries d)
      h.maps inArrays).2 _ hmem
    exact (depth_le_foldl (f := fun e : String × Value => e.2.depth) he).trans hd
  exact hmaps.trans (foldl_grows (fun d (c : Chunk) => le_foldl_max _ c.constants d) h.chunks _).1

/-- Nor are constants. -/
theorem depth_le_deepest_of_constant {c : ChunkId} {v : Value} (hv : v ∈ (h.chunk c).constants) :
    v.depth ≤ h.deepest := by
  have hmem := chunk_mem hv
  unfold deepest
  extract_lets inArrays inMaps
  obtain ⟨d, hd⟩ := (foldl_grows (g := fun d (c : Chunk) =>
    c.constants.foldl (fun d v => max d v.depth) d) (fun d c => le_foldl_max _ c.constants d)
    h.chunks inMaps).2 _ hmem
  exact (depth_le_foldl (f := Value.depth) hv).trans hd

/-- The pairs of arrays and of maps that have not been entered yet. -/
def unseen (h : Heap) (seen : Seen) : Nat :=
  ((Finset.range h.arrays.size ×ˢ Finset.range h.arrays.size).filter
    fun p => (.array p.1, .array p.2) ∉ seen).card +
  ((Finset.range h.maps.size ×ˢ Finset.range h.maps.size).filter
    fun p => (.map p.1, .map p.2) ∉ seen).card

theorem unseen_mono {seen seen' : Seen} (hsub : seen ⊆ seen') : h.unseen seen' ≤ h.unseen seen := by
  refine Nat.add_le_add (Finset.card_le_card fun p hp => ?_) (Finset.card_le_card fun p hp => ?_)
  all_goals
    obtain ⟨hrange, hnot⟩ := Finset.mem_filter.mp hp
    exact Finset.mem_filter.mpr ⟨hrange, fun hin => hnot (hsub hin)⟩

/-- A pair that is entered is one less to come. -/
theorem unseen_array {seen : Seen} {i j : ArrayId} (hi : i < h.arrays.size) (hj : j < h.arrays.size)
    (hnew : (.array i, .array j) ∉ seen) :
    h.unseen ((.array i, .array j) :: seen) < h.unseen seen := by
  refine Nat.add_lt_add_of_lt_of_le (Finset.card_lt_card ?_) (Finset.card_le_card fun p hp => ?_)
  · refine Finset.ssubset_iff.mpr ⟨(i, j), by simp, fun p hp => ?_⟩
    rcases Finset.mem_insert.mp hp with rfl | hp
    · simp [hi, hj, hnew]
    · obtain ⟨hrange, hnot⟩ := Finset.mem_filter.mp hp
      exact Finset.mem_filter.mpr ⟨hrange, fun hin => hnot (List.mem_cons_of_mem _ hin)⟩
  · obtain ⟨hrange, hnot⟩ := Finset.mem_filter.mp hp
    exact Finset.mem_filter.mpr ⟨hrange, fun hin => hnot (List.mem_cons_of_mem _ hin)⟩

theorem unseen_map {seen : Seen} {i j : MapId} (hi : i < h.maps.size) (hj : j < h.maps.size)
    (hnew : (.map i, .map j) ∉ seen) :
    h.unseen ((.map i, .map j) :: seen) < h.unseen seen := by
  refine Nat.add_lt_add_of_le_of_lt (Finset.card_le_card fun p hp => ?_) (Finset.card_lt_card ?_)
  · obtain ⟨hrange, hnot⟩ := Finset.mem_filter.mp hp
    exact Finset.mem_filter.mpr ⟨hrange, fun hin => hnot (List.mem_cons_of_mem _ hin)⟩
  · refine Finset.ssubset_iff.mpr ⟨(i, j), by simp, fun p hp => ?_⟩
    rcases Finset.mem_insert.mp hp with rfl | hp
    · simp [hi, hj, hnew]
    · obtain ⟨hrange, hnot⟩ := Finset.mem_filter.mp hp
      exact Finset.mem_filter.mpr ⟨hrange, fun hin => hnot (List.mem_cons_of_mem _ hin)⟩

theorem unseen_le (h : Heap) (seen : Seen) : h.unseen seen ≤ h.collections * h.collections := by
  have harrays := Finset.card_filter_le (Finset.range h.arrays.size ×ˢ Finset.range h.arrays.size)
    fun p => (.array p.1, .array p.2) ∉ seen
  have hmaps := Finset.card_filter_le (Finset.range h.maps.size ×ˢ Finset.range h.maps.size)
    fun p => (.map p.1, .map p.2) ∉ seen
  rw [Finset.card_product, Finset.card_range] at harrays hmaps
  unfold unseen collections
  nlinarith

/-! ## Any two values -/

/-- What a comparison comes to that has entered two collections or two bound methods: the parts
that are side by side in them. -/
inductive Beside (h : Heap) : Value × Value → Value × Value → Prop where
  | element {i j : ArrayId} {x y : Value} (hne : i ≠ j)
      (hsize : (h.array i).size = (h.array j).size)
      (hxy : (x, some y) ∈ elementPairs (h.array i) (h.array j)) :
      h.Beside (.array i, .array j) (x, y)
  | entry {i j : MapId} {x y : Value} (hne : i ≠ j) (hsize : (h.map i).size = (h.map j).size)
      (hxy : (x, some y) ∈ entryPairs (h.map i) (h.map j)) : h.Beside (.map i, .map j) (x, y)
  | receiver {x y : Value} (m : String) : h.Beside (.boundMethod x m, .boundMethod y m) (x, y)

/-- How deep a comparison can go that has a pair of values before it, as long as it comes to no
functions. -/
def remaining (h : Heap) (seen : Seen) (a : Value) : Nat :=
  h.unseen seen * (h.deepest + 2) + a.depth

/-- Inside a pair that has been entered there is less to come. -/
theorem remaining_lt {seen seen' : Seen} {a x : Value} (hless : h.unseen seen' < h.unseen seen)
    (hx : x.depth ≤ h.deepest) : h.remaining seen' x < h.remaining seen a := by
  unfold remaining
  have hmul : (h.unseen seen' + 1) * (h.deepest + 2) ≤ h.unseen seen * (h.deepest + 2) :=
    Nat.mul_le_mul_right _ hless
  rw [Nat.succ_mul] at hmul
  omega

/-- From one pair of values a comparison comes to another that is beside it. What it has seen it
does not forget, and it cannot go on like that. -/
structure Enters (h : Heap) (seen : Seen) (p : Value × Value) (seen' : Seen) (q : Value × Value) :
    Prop where
  beside : h.Beside p q
  keeps : seen ⊆ seen'
  less : h.remaining seen' q.1 < h.remaining seen p.1

/-- What has elements is there. -/
theorem array_lt_size {i : ArrayId} (hpos : 0 < (h.array i).size) : i < h.arrays.size := by
  by_contra hge
  simp [array, Array.getD_eq_getD_getElem?, Array.getElem?_eq_none (Nat.not_lt.mp hge)] at hpos

theorem map_lt_size {i : MapId} (hpos : 0 < (h.map i).size) : i < h.maps.size := by
  by_contra hge
  simp [map, OrderedMap.size, Array.getD_eq_getD_getElem?,
    Array.getElem?_eq_none (Nat.not_lt.mp hge)] at hpos

theorem enters_element {seen seen' : Seen} {i j : ArrayId} {x y : Value} (hne : i ≠ j)
    (hnew : (.array i, .array j) ∉ seen) (hsizes : (h.array i).size = (h.array j).size)
    (hxy : (x, some y) ∈ elementPairs (h.array i) (h.array j))
    (hsub : (.array i, .array j) :: seen ⊆ seen') :
    h.Enters seen (.array i, .array j) seen' (x, y) where
  beside := .element hne hsizes hxy
  keeps _ hp := hsub (List.mem_cons_of_mem _ hp)
  less := by
    have hx := mem_of_elementPairs hxy
    have hi : 0 < (h.array i).size := Array.size_pos_of_mem hx
    refine remaining_lt (Nat.lt_of_le_of_lt (unseen_mono hsub) ?_) (depth_le_deepest_of_array hx)
    exact unseen_array (array_lt_size hi) (array_lt_size (hsizes ▸ hi)) hnew

theorem enters_entry {seen seen' : Seen} {i j : MapId} {x y : Value} (hne : i ≠ j)
    (hnew : (.map i, .map j) ∉ seen) (hsizes : (h.map i).size = (h.map j).size)
    (hxy : (x, some y) ∈ entryPairs (h.map i) (h.map j)) (hsub : (.map i, .map j) :: seen ⊆ seen') :
    h.Enters seen (.map i, .map j) seen' (x, y) where
  beside := .entry hne hsizes hxy
  keeps _ hp := hsub (List.mem_cons_of_mem _ hp)
  less := by
    obtain ⟨e, he, rfl⟩ := mem_of_entryPairs hxy
    have hi : 0 < (h.map i).size := Array.size_pos_of_mem he
    refine remaining_lt (Nat.lt_of_le_of_lt (unseen_mono hsub) ?_) (depth_le_deepest_of_map he)
    exact unseen_map (map_lt_size hi) (map_lt_size (hsizes ▸ hi)) hnew

theorem enters_receiver {seen seen' : Seen} {x y : Value} (m : String) (hsub : seen ⊆ seen') :
    h.Enters seen (.boundMethod x m, .boundMethod y m) seen' (x, y) where
  beside := .receiver m
  keeps := hsub
  less := by
    have hmul := Nat.mul_le_mul_right (h.deepest + 2) (unseen_mono (h := h) hsub)
    unfold remaining
    simp only [Value.depth]
    omega

/-- Two values are compared by comparing pairs that are beside each other in them, one after the
other. -/
structure GoesThrough (h : Heap) (seen : Seen) (a b : Value) (seen₁ : Seen)
    (pairs : List (Value × Option Value)) : Prop where
  keeps : seen ⊆ seen₁
  eq : ∀ limit, h.equalWithin (limit + 1) seen a b = allEqual (h.equalWithin limit) seen₁ pairs
  enters : ∀ x y, (x, some y) ∈ pairs → ∀ seen', seen₁ ⊆ seen' → h.Enters seen (a, b) seen' (x, y)

/-- Where the answer is there at once, there is nothing to compare, or one partner is missing. -/
theorem goesThrough_of_eq {seen seen₁ : Seen} {a b : Value} (same : Bool) (hsub : seen ⊆ seen₁)
    (heq : ∀ limit, h.equalWithin (limit + 1) seen a b = some (same, seen₁)) :
    ∃ seen₁ pairs, h.GoesThrough seen a b seen₁ pairs := by
  cases same with
  | true => exact ⟨seen₁, [], hsub, heq, by simp⟩
  | false => exact ⟨seen₁, [(.nil, none)], hsub, heq, by simp⟩

theorem goesThrough_arrays (seen : Seen) (i j : ArrayId) :
    ∃ seen₁ pairs, h.GoesThrough seen (.array i) (.array j) seen₁ pairs := by
  by_cases hseen : i = j ∨ (Value.array i, Value.array j) ∈ seen
  · exact goesThrough_of_eq true (List.Subset.refl _) fun limit => by
      rw [equalWithin, if_pos (by simpa using hseen)]
  · by_cases hsizes : (h.array i).size = (h.array j).size
    · refine ⟨(.array i, .array j) :: seen, elementPairs (h.array i) (h.array j),
        List.subset_cons_self _ _, fun limit => ?_, fun x y hxy seen' hsub => ?_⟩
      · rw [equalWithin, if_neg (by simpa using hseen), if_pos hsizes]
      · obtain ⟨hne, hnew⟩ := not_or.mp hseen
        exact enters_element hne hnew hsizes hxy hsub
    · exact goesThrough_of_eq false (List.subset_cons_self _ _) fun limit => by
        rw [equalWithin, if_neg (by simpa using hseen), if_neg hsizes]

theorem goesThrough_maps (seen : Seen) (i j : MapId) :
    ∃ seen₁ pairs, h.GoesThrough seen (.map i) (.map j) seen₁ pairs := by
  by_cases hseen : i = j ∨ (Value.map i, Value.map j) ∈ seen
  · exact goesThrough_of_eq true (List.Subset.refl _) fun limit => by
      rw [equalWithin, if_pos (by simpa using hseen)]
  · by_cases hsizes : (h.map i).size = (h.map j).size
    · refine ⟨(.map i, .map j) :: seen, entryPairs (h.map i) (h.map j),
        List.subset_cons_self _ _, fun limit => ?_, fun x y hxy seen' hsub => ?_⟩
      · rw [equalWithin, if_neg (by simpa using hseen), if_pos hsizes]
      · obtain ⟨hne, hnew⟩ := not_or.mp hseen
        exact enters_entry hne hnew hsizes hxy hsub
    · exact goesThrough_of_eq false (List.subset_cons_self _ _) fun limit => by
        rw [equalWithin, if_neg (by simpa using hseen), if_neg hsizes]

theorem goesThrough_boundMethods (seen : Seen) (x y : Value) (m n : String) :
    ∃ seen₁ pairs, h.GoesThrough seen (.boundMethod x m) (.boundMethod y n) seen₁ pairs := by
  by_cases hmn : m = n
  · subst hmn
    refine ⟨seen, [(x, some y)], List.Subset.refl _, fun limit => ?_,
      fun x' y' hxy seen' hsub => ?_⟩
    · rw [equalWithin, if_pos rfl, allEqual]
      cases h.equalWithin limit seen x y with
      | none => rfl
      | some r =>
        obtain ⟨same, seen'⟩ := r
        cases same <;> rfl
    · obtain ⟨rfl, hy⟩ := Prod.mk.inj (List.mem_singleton.mp hxy)
      cases hy
      exact enters_receiver m hsub
  · exact goesThrough_of_eq false (List.Subset.refl _) fun _ => by rw [equalWithin, if_neg hmn]

/-- That is how all values are compared, but two functions. -/
theorem goesThrough_of_ne (seen : Seen) {a b : Value}
    (hf : ∀ i j, a = .function i → b ≠ .function j) :
    ∃ seen₁ pairs, h.GoesThrough seen a b seen₁ pairs := by
  have hsub := List.Subset.refl seen
  cases a with
  | array i =>
    cases b with
    | array j => exact goesThrough_arrays seen i j
    | _ => exact goesThrough_of_eq false hsub fun _ => rfl
  | map i =>
    cases b with
    | map j => exact goesThrough_maps seen i j
    | _ => exact goesThrough_of_eq false hsub fun _ => rfl
  | boundMethod x m =>
    cases b with
    | boundMethod y n => exact goesThrough_boundMethods seen x y m n
    | _ => exact goesThrough_of_eq false hsub fun _ => rfl
  | function i =>
    cases b with
    | function j => exact absurd rfl (hf i j rfl)
    | _ => exact goesThrough_of_eq false hsub fun _ => rfl
  | _ => cases b <;> exact goesThrough_of_eq _ hsub fun _ => rfl

/-- To compare two functions there is no need to go deeper than some limit. -/
def PairEnds (h : Heap) (bound : Nat) (i j : TemplateId) : Prop :=
  ∀ limit, bound ≤ limit → ∀ seen,
    ∃ same, h.equalWithin limit seen (.function i) (.function j) = some (same, seen)

/-- **A comparison ends** if the comparisons of functions end that it comes to. -/
theorem equalWithin_ends {bound : Nat} {Q : Value → Value → Prop} (hpos : 0 < bound)
    (hbeside : ∀ a b x y, Q a b → h.Beside (a, b) (x, y) → Q x y)
    (hends : ∀ i j, Q (.function i) (.function j) → h.PairEnds bound i j) :
    ∀ {limit : Nat} {seen : Seen} {a b : Value}, Q a b → h.remaining seen a + bound ≤ limit →
      ∃ r, h.equalWithin limit seen a b = some r ∧ seen ⊆ r.2 := by
  intro limit
  -- The limit goes down by one wherever what remains does.
  induction limit with
  | zero =>
    intro seen a b _ hlimit
    omega
  | succ limit ih =>
    intro seen a b hab hlimit
    by_cases hboth : ∃ i j, a = .function i ∧ b = .function j
    · obtain ⟨i, j, rfl, rfl⟩ := hboth
      obtain ⟨same, hsame⟩ := hends i j hab _ (Nat.le_trans (Nat.le_add_left _ _) hlimit) seen
      exact ⟨_, hsame, List.Subset.refl _⟩
    · -- Each part has less remaining, whatever the parts before it have added to what is seen.
      obtain ⟨seen₁, pairs, hthrough⟩ := goesThrough_of_ne (h := h) seen (a := a) (b := b)
        fun i j hi hj => hboth ⟨i, j, hi, hj⟩
      have hall : ∀ seen', seen₁ ⊆ seen' → ∀ x y, (x, some y) ∈ pairs →
          ∃ r, h.equalWithin limit seen' x y = some r ∧ seen₁ ⊆ r.2 := by
        intro seen' hsub x y hxy
        have henters := hthrough.enters x y hxy seen' hsub
        obtain ⟨r, hr, hkeeps⟩ := ih (hbeside _ _ _ _ hab henters.beside)
          (Nat.le_of_lt_succ (Nat.lt_of_lt_of_le (Nat.add_lt_add_right henters.less bound) hlimit))
        exact ⟨r, hr, List.Subset.trans hsub hkeeps⟩
      obtain ⟨r, hr, hkeeps⟩ := allEqual_ends hall (List.Subset.refl _)
      exact ⟨r, (hthrough.eq limit).trans hr, List.Subset.trans hthrough.keeps hkeeps⟩

/-- How much deeper a comparison can go from one pair of functions to the next. -/
def stride (h : Heap) : Nat := h.collections * h.collections * (h.deepest + 2) + h.deepest + 1

/-- The limit of a comparison is beyond what it can reach, if it enters no pair of functions inside
itself. -/
theorem remaining_le_equalityLimit {bound : Nat} {a b : Value}
    (hbound : bound ≤ h.templates.size * h.templates.size * h.stride + 2)
    (ha : hasParts a = true) (hb : hasParts b = true) :
    h.remaining [] a + bound ≤ h.equalityLimit a b := by
  unfold stride at hbound
  unfold remaining equalityLimit
  rw [ha, hb, Bool.and_self, if_pos rfl]
  have hpairs := h.unseen_le []
  -- The limit is a product of more than all these sums.
  generalize h.unseen [] = p at *
  generalize h.collections * h.collections = q at *
  generalize h.deepest = d at *
  generalize h.templates.size * h.templates.size = u at *
  generalize a.depth = x
  generalize b.depth = y
  calc p * (d + 2) + x + bound
      ≤ q * (d + 2) + x + (u * (q * (d + 2) + d + 1) + 2) :=
        Nat.add_le_add (Nat.add_le_add_right (Nat.mul_le_mul_right _ hpairs) x) hbound
    _ ≤ (q + 1) * (d + x + 2) + u * ((q + 1) * (d + x + 2)) := by
        have hstride : q * (d + 2) + d + 1 ≤ (q + 1) * (d + x + 2) := by nlinarith
        have hmul := Nat.mul_le_mul_left u hstride
        nlinarith
    _ ≤ (q + 2) * (d + x + y + 2) * (u + 2) := by
        have hmul : (q + 1) * (d + x + 2) ≤ (q + 2) * (d + x + y + 2) :=
          Nat.mul_le_mul (by omega) (by omega)
        nlinarith

/-- Where a value has no parts, the answer is there at once. -/
theorem equal?_of_not_hasParts {a b : Value} (hparts : ¬ (hasParts a = true ∧ hasParts b = true)) :
    ∃ same, h.equal? a b = some same := by
  have hlimit : h.equalityLimit a b = 1 := by
    unfold equalityLimit
    rw [if_neg (by simpa using hparts)]
  unfold equal?
  rw [hlimit]
  unfold equalWithin
  split
  case h_5 | h_6 | h_7 | h_10 => exact absurd ⟨rfl, rfl⟩ hparts
  all_goals exact ⟨_, rfl⟩

/-- **Every comparison has an answer** that comes to no functions but those whose comparisons
end. -/
theorem equal?_ends_of {bound : Nat} {Q : Value → Value → Prop} (hpos : 0 < bound)
    (hbound : bound ≤ h.templates.size * h.templates.size * h.stride + 2)
    (hbeside : ∀ a b x y, Q a b → h.Beside (a, b) (x, y) → Q x y)
    (hends : ∀ i j, Q (.function i) (.function j) → h.PairEnds bound i j) {a b : Value}
    (hab : Q a b) : ∃ same, h.equal? a b = some same := by
  by_cases hparts : hasParts a = true ∧ hasParts b = true
  · obtain ⟨r, hr, -⟩ := equalWithin_ends hpos hbeside hends hab
      (remaining_le_equalityLimit hbound hparts.1 hparts.2)
    exact ⟨r.1, by rw [equal?, hr]; rfl⟩
  · exact equal?_of_not_hasParts hparts

/-- The functions in the collections are of a kind. -/
structure AllOf (h : Heap) (P : TemplateId → Prop) : Prop where
  array : ∀ i, ∀ v ∈ h.array i, v.Of P
  map : ∀ i, ∀ e ∈ (h.map i).entries, e.2.Of P

/-- **Every comparison of two values has an answer.** -/
theorem equal?_ends (hh : h.AllOf h.FunctionEnds) {a : Value} (ha : a.Of h.FunctionEnds)
    (b : Value) : ∃ same, h.equal? a b = some same := by
  have hstride : h.templates.size + 2 ≤ h.templates.size * h.templates.size * h.stride + 2 :=
    Nat.add_le_add_right ((Nat.le_mul_self _).trans
      (Nat.le_mul_of_pos_right _ (Nat.succ_pos _))) 2
  refine equal?_ends_of (Q := fun a _ => a.Of h.FunctionEnds) (Nat.succ_pos _) hstride ?_
    (fun i j hi limit hlimit seen => hi hlimit seen j) ha
  intro a b x y ha hxy
  cases hxy with
  | element _ _ hxy => exact hh.array _ x (mem_of_elementPairs hxy)
  | entry _ _ hxy =>
    obtain ⟨e, he, rfl⟩ := mem_of_entryPairs hxy
    exact hh.map _ e he
  | receiver => exact ha

/-- In code from a file nothing has to be said of the values. -/
theorem equal?_answers (hc : h.Coded) (a b : Value) : ∃ same, h.equal? a b = some same := by
  have hall : ∀ v : Value, v.Of h.FunctionEnds := by
    intro v
    induction v with
    | function i => exact hc.functionEnds i
    | boundMethod receiver _ ih => exact ih
    | _ => trivial
  exact equal?_ends ⟨fun _ v _ => hall v, fun _ e _ => hall e.2⟩ (hall a) b

end Heap

end TaskVm
