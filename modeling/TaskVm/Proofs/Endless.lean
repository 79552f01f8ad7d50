import TaskVm.Proofs.Comparisons
import TaskVm.Proofs.Executing
import TaskVm.Proofs.Runs
import Mathlib.Data.Nat.Find

/-!
# Functions inside themselves

A host can put more into the constants of a function than a file can, an array with the function
among its elements for one. Such code is no harm, until two functions of that kind are compared.
Their constants are compared without a memory of what has been seen, so that the comparison comes
to the same two functions again, and again.

That is the only way in which a comparison can go on for ever. The limit that comparisons are given
is no reason: without an answer within the limit there is none at all.
-/

namespace TaskVm

namespace Heap

open Relation

variable {h : Heap} {a b : Value}

/-! ## What a comparison comes to -/

/-- What a comparison comes to that has entered a pair of values: the parts that are side by side
in collections and bound methods, and the constants of different functions with the same code. -/
inductive Faces (h : Heap) : Value × Value → Value × Value → Prop where
  | beside {p q : Value × Value} (hpq : h.Beside p q) : h.Faces p q
  | constant {i j : TemplateId} {x y : Value} (hne : i ≠ j)
      (hhead : h.sameHead (h.template i) (h.template j) = true)
      (hxy : (x, some y) ∈ elementPairs (h.chunk (h.template i).chunk).constants
        (h.chunk (h.template j).chunk).constants) : h.Faces (.function i, .function j) (x, y)

/-- The functions that a comparison comes to are there. -/
def Present (h : Heap) (a b : Value) : Prop :=
  ∀ i j, ReflTransGen h.Faces (a, b) (.function i, .function j) →
    i < h.templates.size ∧ j < h.templates.size

/-- A pair of functions is among what a comparison comes to that has entered another. -/
abbrev Inside (h : Heap) (p q : TemplateId × TemplateId) : Prop :=
  TransGen h.Faces (.function q.1, .function q.2) (.function p.1, .function p.2)

/-- Two values may be compared: the functions that are compared are there, and no two of them are
inside themselves. -/
structure Grounded (h : Heap) (a b : Value) : Prop where
  present : h.Present a b
  founded : ∀ p, ReflTransGen h.Faces (a, b) (.function p.1, .function p.2) → ¬ h.Inside p p

theorem Present.of_reaches {x y : Value} (hp : h.Present a b)
    (hxy : ReflTransGen h.Faces (a, b) (x, y)) : h.Present x y :=
  fun i j hij => hp i j (hxy.trans hij)

theorem Grounded.of_reaches {x y : Value} (hg : h.Grounded a b)
    (hxy : ReflTransGen h.Faces (a, b) (x, y)) : h.Grounded x y where
  present := hg.present.of_reaches hxy
  founded p hp := hg.founded p (hxy.trans hp)

/-- What a comparison comes to that has entered two functions does not leave what is inside them. -/
theorem transGen_tail {p : Value × Value} {a b x y : Value} (hab : TransGen h.Faces p (a, b))
    (hxy : h.Beside (a, b) (x, y)) : TransGen h.Faces p (x, y) := hab.tail (.beside hxy)

/-! ## Comparisons that end -/

open Classical in
/-- The pairs of functions inside a pair. -/
noncomputable def pairsInside (h : Heap) (p : TemplateId × TemplateId) :
    Finset (TemplateId × TemplateId) :=
  (Finset.range h.templates.size ×ˢ Finset.range h.templates.size).filter fun q => h.Inside q p

theorem mem_pairsInside {p q : TemplateId × TemplateId} : q ∈ h.pairsInside p ↔
    (q.1 < h.templates.size ∧ q.2 < h.templates.size) ∧ h.Inside q p := by
  simp [pairsInside]

/-- There are fewer pairs inside a pair that is inside another. -/
theorem pairsInside_lt {p q : TemplateId × TemplateId}
    (hg : h.Grounded (.function p.1) (.function p.2)) (hq : h.Inside q p) :
    (h.pairsInside q).card < (h.pairsInside p).card := by
  refine Finset.card_lt_card (Finset.ssubset_iff.mpr ⟨q, fun hself => ?_, fun r hr => ?_⟩)
  · exact hg.founded q hq.to_reflTransGen (mem_pairsInside.mp hself).2
  · rcases Finset.mem_insert.mp hr with rfl | hr
    · exact mem_pairsInside.mpr ⟨hg.present _ _ hq.to_reflTransGen, hq⟩
    · obtain ⟨hsize, hrq⟩ := mem_pairsInside.mp hr
      exact mem_pairsInside.mpr ⟨hsize, hq.trans hrq⟩

/-- A set of pairs of functions that are there, without one of them, is smaller than all pairs. -/
theorem card_lt_of_notMem {pairs : Finset (TemplateId × TemplateId)} {p : TemplateId × TemplateId}
    (hpairs : ∀ q ∈ pairs, q.1 < h.templates.size ∧ q.2 < h.templates.size) (hp : p ∉ pairs)
    (hthere : p.1 < h.templates.size ∧ p.2 < h.templates.size) :
    pairs.card < h.templates.size * h.templates.size := by
  have hlt : pairs.card <
      (Finset.range h.templates.size ×ˢ Finset.range h.templates.size).card := by
    refine Finset.card_lt_card (Finset.ssubset_iff.mpr ⟨p, hp, fun q hq => ?_⟩)
    rcases Finset.mem_insert.mp hq with rfl | hq
    · simpa using hthere
    · simpa using hpairs q hq
  rwa [Finset.card_product, Finset.card_range] at hlt

theorem pairsInside_lt_size {p : TemplateId × TemplateId}
    (hg : h.Grounded (.function p.1) (.function p.2)) :
    (h.pairsInside p).card < h.templates.size * h.templates.size :=
  card_lt_of_notMem (fun _ hq => (mem_pairsInside.mp hq).1)
    (fun hself => hg.founded p .refl (mem_pairsInside.mp hself).2) (hg.present _ _ .refl)

theorem PairEnds.mono {bound bound' : Nat} {i j : TemplateId} (hends : h.PairEnds bound i j)
    (hle : bound ≤ bound') : h.PairEnds bound' i j :=
  fun limit hlimit => hends limit (Nat.le_trans hle hlimit)

/-- One stride is enough for a constant and all that is not inside other functions. -/
theorem remaining_constant {n limit : Nat} {c : ChunkId} {x : Value}
    (hx : x ∈ (h.chunk c).constants) (hlimit : (n + 1) * h.stride + 1 ≤ limit + 1) :
    h.remaining [] x + (n * h.stride + 1) ≤ limit := by
  have hdepth := depth_le_deepest_of_constant hx
  have hpairs := Nat.mul_le_mul_right (h.deepest + 2) (h.unseen_le [])
  have hstride : h.stride = h.collections * h.collections * (h.deepest + 2) + h.deepest + 1 := rfl
  rw [Nat.succ_mul] at hlimit
  unfold remaining
  omega

/-- From one pair of functions to the next a comparison goes one stride deeper. -/
theorem Grounded.pairEnds {n : Nat} : ∀ {p : TemplateId × TemplateId},
    h.Grounded (.function p.1) (.function p.2) → (h.pairsInside p).card = n →
    h.PairEnds ((n + 1) * h.stride + 1) p.1 p.2 := by
  induction n using Nat.strongRecOn with
  | ind n ih =>
    intro p hg hn limit hlimit seen
    obtain ⟨limit, rfl⟩ := Nat.exists_eq_add_of_le' (Nat.le_trans (Nat.le_add_left 1 _) hlimit)
    refine functions_end seen fun hne hhead x y hxy => ?_
    -- What the constants come to is inside the pair, so that the functions among it need less.
    have hless : ∀ k l, TransGen h.Faces (.function p.1, .function p.2) (.function k, .function l) →
        h.PairEnds (n * h.stride + 1) k l := by
      intro k l hkl
      have hcard := hn ▸ pairsInside_lt (q := (k, l)) hg hkl
      exact (ih _ hcard (hg.of_reaches hkl.to_reflTransGen) rfl).mono
        (Nat.add_le_add_right (Nat.mul_le_mul_right _ hcard) 1)
    obtain ⟨r, hr, -⟩ := equalWithin_ends (Nat.succ_pos _) (fun _ _ _ _ => transGen_tail) hless
      (.single (.constant hne hhead hxy)) (remaining_constant (mem_of_elementPairs hxy) hlimit)
    exact ⟨r, hr⟩

/-- **A comparison has an answer** that comes to no functions inside themselves. -/
theorem Grounded.equal?_ends (hg : h.Grounded a b) : ∃ same, h.equal? a b = some same := by
  refine equal?_ends_of (Q := fun x y => ReflTransGen h.Faces (a, b) (x, y)) (Nat.succ_pos _)
    (Nat.le_succ (h.templates.size * h.templates.size * h.stride + 1))
    (fun x y x' y' hxy hbeside => hxy.tail (.beside hbeside)) (fun i j hij => ?_) .refl
  have hij := hg.of_reaches hij
  refine (hij.pairEnds (p := (i, j)) rfl).mono (Nat.add_le_add_right ?_ 1)
  exact Nat.mul_le_mul_right _ (pairsInside_lt_size (p := (i, j)) hij)

/-! ## Heaps in layers -/

/-- All functions on a heap are there. -/
structure Complete (h : Heap) : Prop where
  array : ∀ xs ∈ h.arrays, ∀ v ∈ xs, v.Of (· < h.templates.size)
  map : ∀ m ∈ h.maps, ∀ e ∈ m.entries, e.2.Of (· < h.templates.size)
  constants : ∀ c ∈ h.chunks, ∀ v ∈ c.constants, v.Of (· < h.templates.size)

instance (h : Heap) : Decidable h.Complete :=
  decidable_of_iff ((∀ xs ∈ h.arrays, ∀ v ∈ xs, v.Of (· < h.templates.size)) ∧
    (∀ m ∈ h.maps, ∀ e ∈ m.entries, e.2.Of (· < h.templates.size)) ∧
    ∀ c ∈ h.chunks, ∀ v ∈ c.constants, v.Of (· < h.templates.size))
    ⟨fun ⟨ha, hm, hc⟩ => ⟨ha, hm, hc⟩, fun hc => ⟨hc.array, hc.map, hc.constants⟩⟩

theorem mem_of_elementPairs_right {xs ys : Array Value} {x y : Value}
    (hxy : (x, some y) ∈ elementPairs xs ys) : y ∈ ys := by
  have hy := (List.of_mem_zip hxy).2
  simpa using hy

theorem mem_of_entryPairs_right {m n : OrderedMap Value} {x y : Value}
    (hxy : (x, some y) ∈ entryPairs m n) : ∃ e ∈ n.entries, e.2 = y := by
  obtain ⟨e, -, hpair⟩ := List.mem_map.mp hxy
  obtain ⟨i, -, hi⟩ := Option.bind_eq_some_iff.mp (Prod.mk.inj hpair).2
  obtain ⟨e', he', rfl⟩ := Option.map_eq_some_iff.mp hi
  exact ⟨e', Array.mem_of_getElem? he', rfl⟩

/-- Then those that a comparison comes to are there. -/
theorem Complete.of_faces (hc : h.Complete) {p q : Value × Value} (hpq : h.Faces p q)
    (hp : p.1.Of (· < h.templates.size) ∧ p.2.Of (· < h.templates.size)) :
    q.1.Of (· < h.templates.size) ∧ q.2.Of (· < h.templates.size) := by
  cases hpq with
  | beside hpq =>
    cases hpq with
    | element _ _ hxy =>
      have hx := mem_of_elementPairs hxy
      have hy := mem_of_elementPairs_right hxy
      exact ⟨hc.array _ (array_mem hx) _ hx, hc.array _ (array_mem hy) _ hy⟩
    | entry _ _ hxy =>
      obtain ⟨e, he, rfl⟩ := mem_of_entryPairs hxy
      obtain ⟨e', he', rfl⟩ := mem_of_entryPairs_right hxy
      exact ⟨hc.map _ (map_mem he) e he, hc.map _ (map_mem he') e' he'⟩
    | receiver => exact hp
  | constant _ _ hxy =>
    have hx := mem_of_elementPairs hxy
    have hy := mem_of_elementPairs_right hxy
    exact ⟨hc.constants _ (chunk_mem hx) _ hx, hc.constants _ (chunk_mem hy) _ hy⟩

theorem Complete.present (hc : h.Complete) (ha : a.Of (· < h.templates.size))
    (hb : b.Of (· < h.templates.size)) : h.Present a b := by
  have hreach : ∀ q, ReflTransGen h.Faces (a, b) q →
      q.1.Of (· < h.templates.size) ∧ q.2.Of (· < h.templates.size) := by
    intro q hq
    induction hq with
    | refl => exact ⟨ha, hb⟩
    | tail _ hpq ih => exact hc.of_faces hpq ih
  exact fun i j hij => hreach _ hij

/-- The values of a heap are in layers: nothing in a collection is in a layer above it, and the
constants of a function are in layers below it. -/
structure Layered (h : Heap) (layer : Value → Nat) : Prop where
  element : ∀ i < h.arrays.size, ∀ v ∈ h.array i, layer v ≤ layer (.array i)
  entry : ∀ i < h.maps.size, ∀ e ∈ (h.map i).entries, layer e.2 ≤ layer (.map i)
  receiver : ∀ v m, layer v ≤ layer (.boundMethod v m)
  constant : ∀ i < h.templates.size, ∀ v ∈ (h.chunk (h.template i).chunk).constants,
    layer v < layer (.function i)

/-- What is inside two functions is in layers below them. -/
theorem Layered.inside_lt {layer : Value → Nat} (hl : h.Layered layer) {i j : TemplateId}
    (hp : h.Present (.function i) (.function j)) {q : Value × Value}
    (hq : TransGen h.Faces (.function i, .function j) q) : layer q.1 < layer (.function i) := by
  -- The way goes down at the constants of functions, its first step among them, and never up.
  have hstep : ∀ p q, ReflTransGen h.Faces (.function i, .function j) p → h.Faces p q →
      layer q.1 ≤ layer p.1 ∧ (∀ k l, p = (.function k, .function l) → layer q.1 < layer p.1) := by
    intro p q hip hpq
    cases hpq with
    | beside hpq =>
      cases hpq with
      | element _ _ hxy =>
        have hx := mem_of_elementPairs hxy
        exact ⟨hl.element _ (array_lt_size (Array.size_pos_of_mem hx)) _ hx, nofun⟩
      | entry _ _ hxy =>
        obtain ⟨e, he, rfl⟩ := mem_of_entryPairs hxy
        exact ⟨hl.entry _ (map_lt_size (Array.size_pos_of_mem he)) e he, nofun⟩
      | receiver m => exact ⟨hl.receiver _ m, nofun⟩
    | constant _ _ hxy =>
      have hlt := hl.constant _ (hp _ _ hip).1 _ (mem_of_elementPairs hxy)
      exact ⟨Nat.le_of_lt hlt, fun _ _ _ => hlt⟩
  induction hq with
  | single hq => exact (hstep _ _ .refl hq).2 i j rfl
  | tail hip hpq ih => exact Nat.lt_of_le_of_lt (hstep _ _ hip.to_reflTransGen hpq).1 ih

/-- **On a heap in layers no function is inside itself.** -/
theorem Layered.grounded {layer : Value → Nat} (hl : h.Layered layer) (hp : h.Present a b) :
    h.Grounded a b where
  present := hp
  founded _ hq hself := Nat.lt_irrefl _ (hl.inside_lt (hp.of_reaches hq) hself)

/-! ## The limit -/

/-- If the comparisons that end do so elsewhere too, and alike, then so do all of them. -/
theorem allEqual_agrees {eq eq' : Seen → Value → Value → Option (Bool × Seen)} {I : Seen → Prop} :
    ∀ {pairs : List (Value × Option Value)} {seen : Seen} {r : Bool × Seen},
    (∀ seen, I seen → ∀ a b, (a, some b) ∈ pairs → ∀ r, eq seen a b = some r →
      eq' seen a b = some r ∧ I r.2) →
    I seen → allEqual eq seen pairs = some r → allEqual eq' seen pairs = some r ∧ I r.2
  | [], _, _, _, hseen, hr => by
    cases hr
    exact ⟨rfl, hseen⟩
  | (_, none) :: _, _, _, _, hseen, hr => by
    cases hr
    exact ⟨rfl, hseen⟩
  | (a, some b) :: rest, seen, r, heq, hseen, hr => by
    unfold allEqual at hr ⊢
    cases hfirst : eq seen a b with
    | none =>
      rw [hfirst] at hr
      cases hr
    | some first =>
      obtain ⟨same, seen'⟩ := first
      obtain ⟨hfirst', hseen'⟩ := heq seen hseen a b List.mem_cons_self _ hfirst
      rw [hfirst] at hr
      rw [hfirst']
      cases same with
      | false =>
        cases hr
        exact ⟨rfl, hseen'⟩
      | true =>
        exact allEqual_agrees (fun s hs x y hxy => heq s hs x y (List.mem_cons_of_mem _ hxy))
          hseen' hr

/-- What has an answer has the same with more room, and nothing is forgotten that was seen. -/
theorem equalWithin_mono {n : Nat} : ∀ {limit : Nat}, n ≤ limit → ∀ {seen : Seen} {a b : Value}
    {r : Bool × Seen}, h.equalWithin n seen a b = some r →
      h.equalWithin limit seen a b = some r ∧ seen ⊆ r.2 := by
  induction n with
  | zero =>
    intro limit _ seen a b r hr
    cases hr
  | succ n ih =>
    intro limit hle seen a b r hr
    obtain ⟨limit, rfl⟩ := Nat.exists_eq_add_of_le' (Nat.le_trans (Nat.le_add_left 1 n) hle)
    have hle := Nat.le_of_succ_le_succ hle
    by_cases hboth : ∃ i j, a = .function i ∧ b = .function j
    · obtain ⟨i, j, rfl, rfl⟩ := hboth
      rcases equalWithin_functions (h := h) i j with ⟨same, hsame⟩ | ⟨-, -, lines, heq⟩
      · rw [hsame] at hr ⊢
        cases hr
        exact ⟨rfl, List.Subset.refl _⟩
      · rw [heq] at hr ⊢
        obtain ⟨r, hall, rfl⟩ := Option.map_eq_some_iff.mp hr
        rw [(allEqual_agrees (I := fun _ => True)
          (fun _ _ x y _ r hr => ⟨(ih hle hr).1, trivial⟩) trivial hall).1]
        exact ⟨rfl, List.Subset.refl _⟩
    · obtain ⟨seen₁, pairs, hthrough⟩ := goesThrough_of_ne (h := h) seen (a := a) (b := b)
        fun i j hi hj => hboth ⟨i, j, hi, hj⟩
      rw [hthrough.eq] at hr ⊢
      obtain ⟨hr, hsub⟩ := allEqual_agrees (I := (seen₁ ⊆ ·))
        (fun _ hs x y _ r hr => ⟨(ih hle hr).1, List.Subset.trans hs (ih hle hr).2⟩)
        (List.Subset.refl _) hr
      exact ⟨hr, List.Subset.trans hthrough.keeps hsub⟩

/-- Two functions that a comparison is inside already are compared no differently. -/
theorem functions_forget {limit : Nat} {seen : Seen} {i j : TemplateId} {r : Bool × Seen}
    (seen' : Seen) (hr : h.equalWithin limit seen (.function i) (.function j) = some r) :
    ∃ r, h.equalWithin limit seen' (.function i) (.function j) = some r := by
  cases limit with
  | zero => cases hr
  | succ limit =>
    rcases equalWithin_functions (h := h) i j with ⟨same, hsame⟩ | ⟨-, -, lines, heq⟩
    · exact ⟨_, hsame limit seen'⟩
    · rw [heq] at hr ⊢
      obtain ⟨r, hall, -⟩ := Option.map_eq_some_iff.mp hr
      exact ⟨_, by rw [hall]; rfl⟩

/-- A comparison has an answer within a limit. -/
abbrev EndsWithin (h : Heap) (limit : Nat) (a b : Value) : Prop :=
  ∃ r, h.equalWithin limit [] a b = some r

/-- What has an answer has it within any limit that leaves room for the functions it comes to. -/
theorem equalWithin_settles {m bound : Nat} {Q : Value → Value → Prop} (hpos : 0 < bound)
    (hbeside : ∀ a b x y, Q a b → h.Beside (a, b) (x, y) → Q x y)
    (hends : ∀ i j, Q (.function i) (.function j) → h.EndsWithin m (.function i) (.function j) →
      h.PairEnds bound i j) {n : Nat} :
    n ≤ m → ∀ {limit : Nat} {seen : Seen} {a b : Value} {r : Bool × Seen}, Q a b →
      h.equalWithin n seen a b = some r → h.remaining seen a + bound ≤ limit →
      h.equalWithin limit seen a b = some r := by
  induction n with
  | zero =>
    intro _ limit seen a b r _ hr
    cases hr
  | succ n ih =>
    intro hn limit seen a b r hab hr hlimit
    by_cases hboth : ∃ i j, a = .function i ∧ b = .function j
    · obtain ⟨i, j, rfl, rfl⟩ := hboth
      have hroom := Nat.le_trans (Nat.le_add_left _ _) hlimit
      have hwithin := functions_forget [] (equalWithin_mono hn hr).1
      obtain ⟨same, hsame⟩ := hends i j hab hwithin limit hroom seen
      -- Two answers are the same with room enough for both.
      have hr' := (equalWithin_mono (Nat.le_max_left (n + 1) limit) hr).1
      rw [(equalWithin_mono (Nat.le_max_right (n + 1) limit) hsame).1] at hr'
      rw [hsame, hr']
    · obtain ⟨limit, rfl⟩ := Nat.exists_eq_add_of_le'
        (Nat.le_trans hpos (Nat.le_trans (Nat.le_add_left _ _) hlimit))
      obtain ⟨seen₁, pairs, hthrough⟩ := goesThrough_of_ne (h := h) seen (a := a) (b := b)
        fun i j hi hj => hboth ⟨i, j, hi, hj⟩
      rw [hthrough.eq] at hr ⊢
      refine (allEqual_agrees (I := (seen₁ ⊆ ·)) (fun seen' hsub x y hxy r hr => ?_)
        (List.Subset.refl _) hr).1
      have henters := hthrough.enters x y hxy seen' hsub
      refine ⟨ih (Nat.le_of_succ_le hn) (hbeside _ _ _ _ hab henters.beside) hr ?_,
        List.Subset.trans hsub (equalWithin_mono (Nat.le_refl n) hr).2⟩
      exact Nat.le_of_lt_succ (Nat.lt_of_lt_of_le (Nat.add_lt_add_right henters.less bound) hlimit)

open Classical in
/-- The pairs of functions whose comparison has an answer within a limit. -/
noncomputable def settled (h : Heap) (limit : Nat) : Finset (TemplateId × TemplateId) :=
  (Finset.range h.templates.size ×ˢ Finset.range h.templates.size).filter fun p =>
    h.EndsWithin limit (.function p.1) (.function p.2)

theorem mem_settled {limit : Nat} {p : TemplateId × TemplateId} : p ∈ h.settled limit ↔
    (p.1 < h.templates.size ∧ p.2 < h.templates.size) ∧
      h.EndsWithin limit (.function p.1) (.function p.2) := by
  simp [settled]

/-- There is a least limit within which a comparison has its answer. -/
theorem EndsWithin.exists_least {m : Nat} {a b : Value} (hends : h.EndsWithin m a b) :
    ∃ n, n < m ∧ h.EndsWithin (n + 1) a b ∧ ¬ h.EndsWithin n a b := by
  classical
  have hex : ∃ n, h.EndsWithin n a b := ⟨m, hends⟩
  obtain ⟨n, hn⟩ : ∃ n, Nat.find hex = n + 1 := by
    refine Nat.exists_eq_succ_of_ne_zero fun hzero => ?_
    obtain ⟨r, hr⟩ := hzero ▸ Nat.find_spec hex
    cases hr
  refine ⟨n, ?_, hn ▸ Nat.find_spec hex, Nat.find_min hex (by omega)⟩
  have hle := Nat.find_min' hex hends
  omega

/-- There are fewer pairs with an answer where one has none yet. -/
theorem settled_lt {n m : Nat} {p : TemplateId × TemplateId} (hle : n ≤ m) (hp : p ∈ h.settled m)
    (hnot : ¬ h.EndsWithin n (.function p.1) (.function p.2)) :
    (h.settled n).card < (h.settled m).card := by
  refine Finset.card_lt_card (Finset.ssubset_iff.mpr ⟨p, fun hself => ?_, fun q hq => ?_⟩)
  · exact hnot (mem_settled.mp hself).2
  · rcases Finset.mem_insert.mp hq with rfl | hq
    · exact hp
    · obtain ⟨hsize, r, hr⟩ := mem_settled.mp hq
      exact mem_settled.mpr ⟨hsize, r, (equalWithin_mono hle hr).1⟩

/-- Two functions with an answer need no more than a stride for each pair that has its answer
before. -/
theorem settled_pairEnds {m : Nat} : ∀ {i j : TemplateId}, h.Present (.function i) (.function j) →
    h.EndsWithin (m + 1) (.function i) (.function j) →
    h.PairEnds (((h.settled m).card + 1) * h.stride + 1) i j := by
  induction m using Nat.strongRecOn with
  | ind m ih =>
    rintro i j hp ⟨r, hr⟩ limit hlimit seen
    obtain ⟨limit, rfl⟩ := Nat.exists_eq_add_of_le' (Nat.le_trans (Nat.le_add_left 1 _) hlimit)
    rcases equalWithin_functions (h := h) i j with ⟨same, hsame⟩ | ⟨hne, hhead, lines, heq⟩
    · exact ⟨same, hsame limit seen⟩
    · rw [heq] at hr
      obtain ⟨r, hall, -⟩ := Option.map_eq_some_iff.mp hr
      -- Functions that are compared on the way have had their answer within less, so that fewer
      -- pairs are settled where they have none yet.
      have hless : ∀ k l, TransGen h.Faces (.function i, .function j) (.function k, .function l) →
          h.EndsWithin m (.function k) (.function l) →
          h.PairEnds ((h.settled m).card * h.stride + 1) k l := by
        intro k l hkl hends
        obtain ⟨n, hn, hnext, hnot⟩ := hends.exists_least
        have hmem : (k, l) ∈ h.settled m := mem_settled.mpr ⟨hp k l hkl.to_reflTransGen, hends⟩
        exact (ih n hn (hp.of_reaches hkl.to_reflTransGen) hnext).mono
          (Nat.add_le_add_right (Nat.mul_le_mul_right _ (settled_lt (Nat.le_of_lt hn) hmem hnot)) 1)
      have hconstants : ∀ x y, (x, some y) ∈ elementPairs (h.chunk (h.template i).chunk).constants
          (h.chunk (h.template j).chunk).constants → ∀ r, h.equalWithin m [] x y = some r →
          h.equalWithin limit [] x y = some r := by
        intro x y hxy r hr
        exact equalWithin_settles (Nat.succ_pos _) (fun _ _ _ _ => transGen_tail) hless
          (Nat.le_refl m) (.single (.constant hne hhead hxy)) hr
          (remaining_constant (mem_of_elementPairs hxy) hlimit)
      rw [heq, (allEqual_agrees (I := fun _ => True)
        (fun _ _ x y hxy r hr => ⟨hconstants x y hxy r hr, trivial⟩) trivial hall).1]
      exact ⟨r.1 && lines, rfl⟩

/-- **The limit of a comparison is no limit**: what has no answer within it has none at all. -/
theorem equal?_eq_none_iff (hp : h.Present a b) :
    h.equal? a b = none ↔ ∀ limit, h.equalWithin limit [] a b = none := by
  constructor
  · intro hnone limit
    by_contra hsome
    obtain ⟨r, hr⟩ := Option.ne_none_iff_exists'.mp hsome
    by_cases hparts : hasParts a = true ∧ hasParts b = true
    · -- A pair is not among those settled before it, so that these are fewer than all pairs.
      have hends : ∀ i j, ReflTransGen h.Faces (a, b) (.function i, .function j) →
          h.EndsWithin limit (.function i) (.function j) →
          h.PairEnds (h.templates.size * h.templates.size * h.stride + 1) i j := by
        intro i j hij hends
        obtain ⟨n, -, hnext, hnot⟩ := hends.exists_least
        have hcard := card_lt_of_notMem (p := (i, j)) (fun q hq => (mem_settled.mp hq).1)
          (fun hself => hnot (mem_settled.mp hself).2) (hp i j hij)
        exact (settled_pairEnds (hp.of_reaches hij) hnext).mono
          (Nat.add_le_add_right (Nat.mul_le_mul_right _ hcard) 1)
      have hr' := equalWithin_settles (Q := fun x y => ReflTransGen h.Faces (a, b) (x, y))
        (Nat.succ_pos _) (fun x y x' y' hxy hbeside => hxy.tail (.beside hbeside)) hends
        (Nat.le_refl limit) .refl hr
        (remaining_le_equalityLimit (Nat.le_succ _) hparts.1 hparts.2)
      rw [equal?, hr'] at hnone
      cases hnone
    · obtain ⟨same, hsame⟩ := equal?_of_not_hasParts (h := h) hparts
      rw [hsame] at hnone
      cases hnone
  · intro hnone
    rw [equal?, hnone]
    rfl

end Heap

/-! ## Instructions -/

open Exec

theorem pop_pushed {s : Turn} {rest : Array Value} {v : Value}
    (hstack : s.task.stack = rest.push v) :
    ∃ s', pop s = .ok v s' ∧ s'.heap = s.heap ∧ s'.task.stack = rest := by
  have hv : s.task.stack.back? = some v := by rw [hstack, Array.back?_push]
  refine ⟨_, pop_ok s hv, rfl, ?_⟩
  show s.task.stack.pop = rest
  rw [hstack, Array.pop_push]

/-- With an answer, a comparison takes its operands off and puts the answer on. -/
theorem equality_ok {s : Turn} {rest : Array Value} {a b : Value} {same : Bool}
    (hstack : s.task.stack = (rest.push a).push b) (hsame : s.heap.equal? a b = some same)
    (wanted : Bool) : ∃ s', equality wanted s = .ok ⟨⟩ s' ∧ s'.heap = s.heap ∧
      s'.task.stack = rest.push (.bool (same == wanted)) := by
  obtain ⟨s₁, hb, hheap₁, hstack₁⟩ := pop_pushed hstack
  obtain ⟨s₂, ha, hheap₂, hstack₂⟩ := pop_pushed hstack₁
  have hheap := hheap₂.trans hheap₁
  refine ⟨{ s₂ with task := s₂.task.push (.bool (same == wanted)) }, ?_, hheap, ?_⟩
  · rw [equality, bind_ok hb, bind_ok ha, get_bind_apply,
      show s₂.heap.equal? a b = some same from hheap ▸ hsame]
    rfl
  · exact congrArg (·.push (Value.bool (same == wanted))) hstack₂

/-- **Two values are compared to the end** if they come to no functions inside themselves. There is
one answer, however deep the comparison may go beyond some limit. `==` puts it on the stack in place
of its operands, and `!=` the opposite. -/
theorem comparison_ends {s : Turn} {rest : Array Value} {a b : Value}
    (hstack : s.task.stack = (rest.push a).push b) (hg : s.heap.Grounded a b) :
    ∃ same, (∀ limit, s.heap.equalityLimit a b ≤ limit →
        ∃ seen, s.heap.equalWithin limit [] a b = some (same, seen)) ∧
      (∃ s', execute .equal s = .ok .next s' ∧ s'.heap = s.heap ∧
        s'.task.stack = rest.push (.bool same)) ∧
      ∃ s', execute .notEqual s = .ok .next s' ∧ s'.heap = s.heap ∧
        s'.task.stack = rest.push (.bool !same) := by
  obtain ⟨same, hsame⟩ := hg.equal?_ends
  refine ⟨same, fun limit hlimit => ?_, ?_, ?_⟩
  · obtain ⟨⟨same, seen⟩, hr, rfl⟩ := Option.map_eq_some_iff.mp hsame
    exact ⟨seen, (Heap.equalWithin_mono hlimit hr).1⟩
  · obtain ⟨s', heq, hheap, hstack'⟩ := equality_ok hstack hsame true
    exact ⟨s', by rw [execute, bind_ok heq]; rfl, hheap, by simpa using hstack'⟩
  · obtain ⟨s', hne, hheap, hstack'⟩ := equality_ok hstack hsame false
    exact ⟨s', by rw [execute, bind_ok hne]; rfl, hheap, by simpa using hstack'⟩

/-- Two arrays that contain themselves and functions. The constants of the functions are further
such arrays, with a function among their elements. -/
def woven : Heap where
  arrays := #[#[.array 0, .function 0], #[.array 1, .function 1], #[.array 2, .nil, .function 2],
    #[.array 3, .nil, .function 2]]
  chunks := #[{ code := #[0x62], constants := #[.array 2, .boundMethod (.array 3) "len"] },
    { code := #[0x62], constants := #[.array 3, .boundMethod (.array 2) "len"] }, {}]
  templates := #[{ name := "f", chunk := 0 }, { name := "f", chunk := 1 },
    { name := "g", chunk := 2 }]

/-- The layer of a value of that heap. -/
def wovenLayer : Value → Nat
  | .array i => if i < 2 then 2 else 1
  | .function i => if i < 2 then 2 else 1
  | .boundMethod receiver _ => wovenLayer receiver
  | _ => 0

theorem woven_layered : woven.Layered wovenLayer where
  element := by decide
  entry := by decide
  receiver _ _ := Nat.le_refl _
  constant := by decide

theorem woven_compared : ∃ s : Turn, s.heap = woven ∧
    s.task.stack = #[.nil, .array 0, .array 1] ∧ s.heap.Grounded (.array 0) (.array 1) ∧
    ∃ s', execute .equal s = .ok .next s' ∧ s'.task.stack = #[.nil, .bool true] := by
  let s : Turn := {
    hosts := #[]
    heap := woven
    vm := { id := 0, sink := 0 }
    task := { id := 0, handle := 0, stack := #[.nil, .array 0, .array 1] } }
  have hcomplete : woven.Complete := by decide
  have hg : s.heap.Grounded (.array 0) (.array 1) :=
    woven_layered.grounded (hcomplete.present trivial trivial)
  have hstack : s.task.stack = (#[Value.nil].push (.array 0)).push (.array 1) := rfl
  obtain ⟨same, hwithin, ⟨s', hs', -, hstack⟩, -⟩ := comparison_ends hstack hg
  obtain rfl : same = true := by
    have hsame : woven.equal? (.array 0) (.array 1) = some true := by decide +kernel
    obtain ⟨seen, hseen⟩ := hwithin _ (Nat.le_refl _)
    obtain ⟨r, hr, hr₁⟩ := Option.map_eq_some_iff.mp hsame
    obtain rfl : r = (same, seen) := Option.some.inj (hr.symm.trans hseen)
    exact hr₁
  exact ⟨s, rfl, rfl, hg, s', hs', hstack⟩

namespace Machine

/-- A program that puts functions into arrays. Each of the functions has its array for a
constant. -/
def tangled : Heap where
  arrays := #[#[.nil], #[.nil]]
  templates := #[{ name := "f", chunk := 1 }, { name := "f", chunk := 2 }]
  chunks := #[
    { code := assemble [(.constant, [0, 0]), (.constant, [0, 4]), (.constant, [0, 2]),
        (.setIndex, []), (.pop, []), (.constant, [0, 1]), (.constant, [0, 4]), (.constant, [0, 3]),
        (.setIndex, []), (.pop, []), (.constant, [0, 0]), (.constant, [0, 1]), (.equal, []),
        (.ret, [])]
      constants := #[.array 0, .array 1, .function 0, .function 1, .number (.ofInt 0)] },
    { constants := #[.array 0] }, { constants := #[.array 1] }]

/-- **There is a comparison without an end**, of two arrays that are made while the program runs. -/
theorem tangled_endless : ∃ m,
    ((create #[] tangled 0 {} {}).load 0).2.run (none : Option (Hook Unit)) 20 () =
      some (.endless, m, ()) ∧
    m.heap.Present (.array 0) (.array 1) ∧
    ∀ limit, m.heap.equalWithin limit [] (.array 0) (.array 1) = none := by
  have hrun : ((((create #[] tangled 0 {} {}).load 0).2.run (none : Option (Hook Unit)) 20 ()).any
      fun r => decide (r.1 = .endless) && decide r.2.1.heap.Complete &&
        decide (r.2.1.heap.equal? (.array 0) (.array 1) = none)) = true := by
    decide +kernel
  obtain ⟨⟨o, m, u⟩, hrun, hp⟩ := (Option.any_eq_true _ _).mp hrun
  simp only [Bool.and_eq_true, decide_eq_true_eq] at hp
  obtain ⟨⟨rfl, hcomplete⟩, hnone⟩ := hp
  have hpresent := hcomplete.present (a := .array 0) (b := .array 1) trivial trivial
  exact ⟨m, hrun, hpresent, (Heap.equal?_eq_none_iff hpresent).mp hnone⟩

end Machine

end TaskVm
