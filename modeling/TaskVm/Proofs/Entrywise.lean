import TaskVm.Proofs.Bindings
import TaskVm.Proofs.Endless

/-!
# Maps are compared entry by entry

When two maps are compared, the pairs of collections that have come up under one key are remembered
under the next, and are taken to be equal there. Two values on their own are compared without such a
memory. Still it makes no difference: two maps are equal when they have the same keys and the values
under each of them are equal on their own.

The reason is that whatever is found to be equal is so because of a relation between values that
goes for the parts of all values that it goes for. What the memory says is in the relation as well.
Nothing is asked of the functions here. A comparison of two functions may go on for ever, and then
it is no more equal inside a map than outside.
-/

namespace TaskVm

namespace Heap

open Relation

variable {h : Heap} {R : Value → Value → Prop} {a b : Value}

/-! ## What equality comes down to -/

/-- Two values are found to be equal, within some limit. -/
def FoundEqual (h : Heap) (a b : Value) : Prop :=
  ∃ limit r, h.equalWithin limit [] a b = some r ∧ r.1 = true

open Classical in
/-- What it takes for two values to be equal: that each of these has a partner, and that the two are
equal. Nothing more has to be found out about two functions, or about what has no parts. -/
noncomputable def counterparts (h : Heap) (a b : Value) : List (Value × Option Value) :=
  match a, b with
  | .array i, .array j =>
    if i = j then []
    else if (h.array i).size = (h.array j).size then elementPairs (h.array i) (h.array j)
    else [(.nil, none)]
  | .map i, .map j =>
    if i = j then []
    else if (h.map i).size = (h.map j).size then entryPairs (h.map i) (h.map j)
    else [(.nil, none)]
  | .boundMethod x m, .boundMethod y n => if m = n then [(x, some y)] else [(.nil, none)]
  | a, b => if h.FoundEqual a b then [] else [(.nil, none)]

/-- All values in a list have partners, and each two are in a relation. -/
structure Paired (R : Value → Value → Prop) (pairs : List (Value × Option Value)) : Prop where
  partnered : ∀ x, (x, none) ∉ pairs
  related : ∀ x y, (x, some y) ∈ pairs → R x y

/-- A relation that goes for what equality comes down to, whenever it goes for two values. -/
def Sustains (h : Heap) (R : Value → Value → Prop) : Prop :=
  ∀ a b, R a b → Paired R (h.counterparts a b)

/-- Some such relation goes for two values. -/
def Matched (h : Heap) (a b : Value) : Prop := ∃ R, h.Sustains R ∧ R a b

theorem paired_iff {pairs : List (Value × Option Value)} :
    Paired R pairs ↔ ∀ x o, (x, o) ∈ pairs → ∃ y, o = some y ∧ R x y := by
  constructor
  · intro hp x o hxo
    cases o with
    | none => exact absurd hxo (hp.partnered x)
    | some y => exact ⟨y, rfl, hp.related x y hxo⟩
  · intro hp
    refine ⟨fun x hx => ?_, fun x y hxy => ?_⟩
    · obtain ⟨y, hy, -⟩ := hp x none hx
      cases hy
    · obtain ⟨y', hy, hxy⟩ := hp x (some y) hxy
      cases hy
      exact hxy

theorem foundEqual_at_once {same : Bool}
    (hsame : ∀ limit seen, h.equalWithin (limit + 1) seen a b = some (same, seen)) :
    h.FoundEqual a b ↔ same = true := by
  constructor
  · rintro ⟨limit, r, hr, htrue⟩
    cases limit with
    | zero => cases hr
    | succ limit =>
      rw [hsame] at hr
      cases hr
      exact htrue
  · intro htrue
    exact ⟨1, _, hsame 0 [], htrue⟩

open Classical in
/-- Where the answer is there at once, nothing is compared any more. -/
theorem counterparts_at_once {same : Bool}
    (hsame : ∀ limit seen, h.equalWithin (limit + 1) seen a b = some (same, seen))
    (hscalar : h.counterparts a b = if h.FoundEqual a b then [] else [(.nil, none)])
    (seen : Seen) (limit : Nat) : h.equalWithin (limit + 1) seen a b =
      allEqual (h.equalWithin limit) seen (h.counterparts a b) := by
  have hfound := foundEqual_at_once hsame
  rw [hsame, hscalar]
  cases same with
  | true =>
    rw [if_pos (hfound.mpr rfl)]
    rfl
  | false =>
    rw [if_neg fun hequal => Bool.false_ne_true (hfound.mp hequal)]
    rfl

/-- Two values are compared by comparing what equality comes down to, unless they are a pair that
has been seen. They may become one that has. -/
inductive Compared (h : Heap) (seen : Seen) (a b : Value) : Prop where
  | known (hseen : (a, b) ∈ seen)
      (heq : ∀ limit, h.equalWithin (limit + 1) seen a b = some (true, seen))
  | left (heq : ∀ limit, h.equalWithin (limit + 1) seen a b =
      allEqual (h.equalWithin limit) seen (h.counterparts a b))
  | entered (heq : ∀ limit, h.equalWithin (limit + 1) seen a b =
      allEqual (h.equalWithin limit) ((a, b) :: seen) (h.counterparts a b))

theorem compared_arrays (seen : Seen) (i j : ArrayId) :
    h.Compared seen (.array i) (.array j) := by
  by_cases hij : i = j
  · refine .left fun limit => ?_
    rw [equalWithin, counterparts, if_pos (by simp [hij]), if_pos hij]
    rfl
  by_cases hseen : (Value.array i, Value.array j) ∈ seen
  · refine .known hseen fun limit => ?_
    rw [equalWithin, if_pos (by simp [hseen])]
  · refine .entered fun limit => ?_
    rw [equalWithin, counterparts, if_neg (by simp [hij, hseen]), if_neg hij]
    by_cases hsize : (h.array i).size = (h.array j).size
    · rw [if_pos hsize, if_pos hsize]
    · rw [if_neg hsize, if_neg hsize]
      rfl

theorem compared_maps (seen : Seen) (i j : MapId) : h.Compared seen (.map i) (.map j) := by
  by_cases hij : i = j
  · refine .left fun limit => ?_
    rw [equalWithin, counterparts, if_pos (by simp [hij]), if_pos hij]
    rfl
  by_cases hseen : (Value.map i, Value.map j) ∈ seen
  · refine .known hseen fun limit => ?_
    rw [equalWithin, if_pos (by simp [hseen])]
  · refine .entered fun limit => ?_
    rw [equalWithin, counterparts, if_neg (by simp [hij, hseen]), if_neg hij]
    by_cases hsize : (h.map i).size = (h.map j).size
    · rw [if_pos hsize, if_pos hsize]
    · rw [if_neg hsize, if_neg hsize]
      rfl

theorem compared_boundMethods (seen : Seen) (x y : Value) (m n : String) :
    h.Compared seen (.boundMethod x m) (.boundMethod y n) := by
  refine .left fun limit => ?_
  rw [equalWithin, counterparts]
  by_cases hmn : m = n
  · rw [if_pos hmn, if_pos hmn, allEqual]
    rcases h.equalWithin limit seen x y with _ | ⟨_ | _, seen'⟩ <;> rfl
  · rw [if_neg hmn, if_neg hmn]
    rfl

/-- That is how all values are compared, but two functions. -/
theorem compared_of_ne (seen : Seen) (hf : ∀ i j, a = .function i → b ≠ .function j) :
    h.Compared seen a b := by
  cases a with
  | array i =>
    cases b with
    | array j => exact compared_arrays seen i j
    | _ => exact .left (counterparts_at_once (fun _ _ => rfl) rfl seen)
  | map i =>
    cases b with
    | map j => exact compared_maps seen i j
    | _ => exact .left (counterparts_at_once (fun _ _ => rfl) rfl seen)
  | boundMethod x m =>
    cases b with
    | boundMethod y n => exact compared_boundMethods seen x y m n
    | _ => exact .left (counterparts_at_once (fun _ _ => rfl) rfl seen)
  | function i =>
    cases b with
    | function j => exact absurd rfl (hf i j rfl)
    | _ => exact .left (counterparts_at_once (fun _ _ => rfl) rfl seen)
  | _ => cases b <;> exact .left (counterparts_at_once (fun _ _ => rfl) rfl seen)

/-- The answer for two functions has nothing to do with what has been seen, and adds nothing. -/
theorem functions_unseen {limit : Nat} {seen : Seen} {i j : TemplateId} {r : Bool × Seen}
    (hr : h.equalWithin limit seen (.function i) (.function j) = some r) (seen' : Seen) :
    h.equalWithin limit seen' (.function i) (.function j) = some (r.1, seen') ∧ r.2 = seen := by
  cases limit with
  | zero => cases hr
  | succ limit =>
    rcases equalWithin_functions (h := h) i j with ⟨same, hsame⟩ | ⟨-, -, lines, heq⟩
    · rw [hsame] at hr
      cases hr
      exact ⟨hsame limit seen', rfl⟩
    · rw [heq] at hr ⊢
      obtain ⟨r, hall, rfl⟩ := Option.map_eq_some_iff.mp hr
      rw [hall]
      exact ⟨rfl, rfl⟩

theorem counterparts_functions {i j : TemplateId} :
    Paired R (h.counterparts (.function i) (.function j)) ↔
      h.FoundEqual (.function i) (.function j) := by
  classical
  have heq : h.counterparts (.function i) (.function j) =
      if h.FoundEqual (.function i) (.function j) then [] else [(.nil, none)] := rfl
  rw [heq]
  constructor
  · intro hp
    by_contra hnot
    rw [if_neg hnot] at hp
    exact hp.partnered .nil List.mem_cons_self
  · intro hfound
    rw [if_pos hfound]
    exact ⟨by simp, by simp⟩

/-! ## What is found to be equal matches -/

/-- What a comparison has found when it has seen some pairs: the two are one of these pairs, or
there was no need to enter them. -/
inductive Found (h : Heap) (seen : Seen) : Value → Value → Prop where
  | entered {a b : Value} (hab : (a, b) ∈ seen) : h.Found seen a b
  | paired {a b : Value} (hpartnered : ∀ x, (x, none) ∉ h.counterparts a b)
      (hrelated : ∀ x y, (x, some y) ∈ h.counterparts a b → h.Found seen x y) :
      h.Found seen a b

/-- Pairs have been entered and left again: what the new ones come down to has been found. -/
structure Gathers (h : Heap) (seen seen' : Seen) : Prop where
  sub : seen ⊆ seen'
  paired : ∀ p ∈ seen', p ∈ seen ∨ Paired (h.Found seen') (h.counterparts p.1 p.2)

theorem Found.mono {seen seen' : Seen} (hsub : seen ⊆ seen') (hab : h.Found seen a b) :
    h.Found seen' a b := by
  induction hab with
  | entered hab => exact .entered (hsub hab)
  | paired hpartnered _ ih => exact .paired hpartnered ih

theorem Paired.mono {S : Value → Value → Prop} {pairs : List (Value × Option Value)}
    (hRS : ∀ x y, R x y → S x y) (hp : Paired R pairs) : Paired S pairs :=
  ⟨hp.partnered, fun x y hxy => hRS x y (hp.related x y hxy)⟩

instance : IsPreorder Seen h.Gathers where
  refl _ := ⟨List.Subset.refl _, fun _ hp => .inl hp⟩
  trans s s' s'' hs hs' := by
    refine ⟨List.Subset.trans hs.sub hs'.sub, fun p hp => ?_⟩
    rcases hs'.paired p hp with hp | hp
    · exact (hs.paired p hp).imp_right (·.mono fun _ _ => Found.mono hs'.sub)
    · exact .inr hp

/-- A pair that has been entered is left when all that it comes down to has been found. -/
theorem Gathers.leave {seen seen' : Seen} (ha : h.Gathers ((a, b) :: seen) seen')
    (hab : Paired (h.Found seen') (h.counterparts a b)) :
    h.Gathers seen seen' ∧ h.Found seen' a b := by
  refine ⟨⟨fun p hp => ha.sub (List.mem_cons_of_mem _ hp), fun p hp => ?_⟩,
    .entered (ha.sub List.mem_cons_self)⟩
  rcases ha.paired p hp with hp | hp
  · rcases List.mem_cons.mp hp with rfl | hp
    · exact .inr hab
    · exact .inl hp
  · exact .inr hp

/-- **What is found to be equal has been found to match**, as far as it has been seen. -/
theorem equalWithin_found : ∀ {limit : Nat} {seen seen' : Seen} {a b : Value},
    h.equalWithin limit seen a b = some (true, seen') →
      h.Gathers seen seen' ∧ h.Found seen' a b := by
  intro limit
  induction limit with
  | zero =>
    intro _ _ _ _ heq
    cases heq
  | succ limit ih =>
    intro seen seen' a b heq
    by_cases hboth : ∃ i j, a = .function i ∧ b = .function j
    · obtain ⟨i, j, rfl, rfl⟩ := hboth
      obtain ⟨hfound, rfl⟩ := functions_unseen heq []
      have hpaired := (counterparts_functions (R := h.Found seen')).mpr ⟨_, _, hfound, rfl⟩
      exact ⟨refl_of h.Gathers _, .paired hpaired.partnered hpaired.related⟩
    · -- All that the two come down to has been found to be equal, in one go.
      have hall : ∀ {seen₁ : Seen},
          allEqual (h.equalWithin limit) seen₁ (h.counterparts a b) = some (true, seen') →
          h.Gathers seen₁ seen' ∧ Paired (h.Found seen') (h.counterparts a b) := by
        intro seen₁ hall
        obtain ⟨hgathers, hpairs⟩ := allEqual_true (G := h.Gathers) (Q := h.Found)
          (fun ha => Found.mono ha.sub) (fun s s' x y _ hxy => ih hxy) hall
        exact ⟨hgathers, paired_iff.mpr hpairs⟩
      rcases compared_of_ne (h := h) seen (a := a) (b := b)
        fun i j hi hj => hboth ⟨i, j, hi, hj⟩ with ⟨hseen, hknown⟩ | hleft | hentered
      · rw [hknown] at heq
        cases heq
        exact ⟨refl_of h.Gathers _, .entered hseen⟩
      · rw [hleft] at heq
        obtain ⟨hgathers, hpaired⟩ := hall heq
        exact ⟨hgathers, .paired hpaired.partnered hpaired.related⟩
      · rw [hentered] at heq
        obtain ⟨hgathers, hpaired⟩ := hall heq
        exact hgathers.leave hpaired

/-- At the end of a comparison, all that it has found sustains itself. -/
theorem Gathers.sustains {seen : Seen} (ha : h.Gathers [] seen) : h.Sustains (h.Found seen) := by
  intro a b hab
  cases hab with
  | entered hab => exact (ha.paired _ hab).resolve_left List.not_mem_nil
  | paired hpartnered hrelated => exact ⟨hpartnered, hrelated⟩

/-- **What matches is never found to differ**, whatever has been seen. -/
theorem Sustains.equalWithin (hR : h.Sustains R) :
    ∀ {limit : Nat} {seen : Seen} {a b : Value} {r : Bool × Seen}, R a b →
      h.equalWithin limit seen a b = some r → r.1 = true := by
  intro limit
  induction limit with
  | zero =>
    intro _ _ _ _ _ heq
    cases heq
  | succ limit ih =>
    intro seen a b r hab heq
    by_cases hboth : ∃ i j, a = .function i ∧ b = .function j
    · obtain ⟨i, j, rfl, rfl⟩ := hboth
      -- Two answers are the same with room enough for both.
      obtain ⟨limit', r', hr', htrue⟩ := counterparts_functions.mp (hR _ _ hab)
      have hr := (functions_unseen heq []).1
      have hr := (equalWithin_mono (Nat.le_max_left (limit + 1) limit') hr).1
      rw [(equalWithin_mono (Nat.le_max_right (limit + 1) limit') hr').1] at hr
      obtain rfl := Option.some.inj hr
      exact htrue
    · have hpaired := paired_iff.mp (hR a b hab)
      have hall : ∀ {seen₁ : Seen},
          allEqual (h.equalWithin limit) seen₁ (h.counterparts a b) = some r → r.1 = true := by
        intro seen₁ hall
        refine allEqual_of_forall (fun x o hxo => ?_) hall
        obtain ⟨y, rfl, hxy⟩ := hpaired x o hxo
        exact ⟨y, rfl, fun _ _ => ih hxy⟩
      rcases compared_of_ne (h := h) seen (a := a) (b := b)
        fun i j hi hj => hboth ⟨i, j, hi, hj⟩ with ⟨-, hknown⟩ | hleft | hentered
      · rw [hknown] at heq
        cases heq
        rfl
      · exact hall ((hleft limit).symm.trans heq)
      · exact hall ((hentered limit).symm.trans heq)

theorem Matched.equalWithin (hab : h.Matched a b) {limit : Nat} {seen : Seen} {r : Bool × Seen}
    (hr : h.equalWithin limit seen a b = some r) : r.1 = true := by
  obtain ⟨R, hR, hab⟩ := hab
  exact hR.equalWithin hab hr

/-! ## Matching values have their answer -/

/-- What matches comes down to what matches. -/
theorem Matched.beside {x y : Value} (hab : h.Matched a b) (hxy : h.Beside (a, b) (x, y)) :
    h.Matched x y := by
  obtain ⟨R, hR, hab⟩ := hab
  refine ⟨R, hR, (hR a b hab).related x y ?_⟩
  cases hxy with
  | element hne hsize hxy =>
    rw [counterparts, if_neg hne, if_pos hsize]
    exact hxy
  | entry hne hsize hxy =>
    rw [counterparts, if_neg hne, if_pos hsize]
    exact hxy
  | receiver m =>
    rw [counterparts, if_pos rfl]
    exact List.mem_cons_self

/-- Matching functions are compared without going deeper than there are strides for all pairs. -/
theorem Matched.pairEnds (hc : h.Complete) {i j : TemplateId} (hi : i < h.templates.size)
    (hj : j < h.templates.size) (hij : h.Matched (.function i) (.function j)) :
    h.PairEnds (h.templates.size * h.templates.size * h.stride + 1) i j := by
  obtain ⟨R, hR, hij⟩ := hij
  obtain ⟨limit, r, hr, -⟩ := counterparts_functions.mp (hR _ _ hij)
  obtain ⟨n, -, hnext, hnot⟩ := EndsWithin.exists_least ⟨r, hr⟩
  have hcard := card_lt_of_notMem (p := (i, j)) (fun q hq => (mem_settled.mp hq).1)
    (fun hself => hnot (mem_settled.mp hself).2) ⟨hi, hj⟩
  exact (settled_pairEnds (hc.present hi hj) hnext).mono
    (Nat.add_le_add_right (Nat.mul_le_mul_right _ hcard) 1)

/-- **Matching values have their answer** within the limit of their comparison, whatever has been
seen. -/
theorem Matched.ends (hc : h.Complete) (hab : h.Matched a b) (ha : a.Of (· < h.templates.size))
    (hb : b.Of (· < h.templates.size)) {limit : Nat} (hlimit : h.equalityLimit a b ≤ limit)
    (seen : Seen) : ∃ r, h.equalWithin limit seen a b = some r := by
  by_cases hparts : hasParts a = true ∧ hasParts b = true
  · have hroom := remaining_le_equalityLimit (h := h) (Nat.le_succ _) hparts.1 hparts.2
    have hunseen :=
      Nat.mul_le_mul_right (h.deepest + 2) (unseen_mono (h := h) (List.nil_subset seen))
    have hlimit' : h.remaining seen a +
        (h.templates.size * h.templates.size * h.stride + 1) ≤ limit := by
      unfold remaining at hroom ⊢
      omega
    obtain ⟨r, hr, -⟩ := equalWithin_ends
      (Q := fun x y => h.Matched x y ∧ x.Of (· < h.templates.size) ∧ y.Of (· < h.templates.size))
      (Nat.succ_pos _) (fun x y x' y' hxy hbeside => ⟨hxy.1.beside hbeside,
        hc.of_faces (.beside hbeside) hxy.2⟩)
      (fun i j hij => hij.1.pairEnds hc hij.2.1 hij.2.2) ⟨hab, ha, hb⟩ hlimit'
    exact ⟨r, hr⟩
  · obtain ⟨limit, rfl⟩ : ∃ n, limit = n + 1 := by
      rw [equalityLimit, if_neg (by simpa using hparts)] at hlimit
      exact Nat.exists_eq_add_of_le' hlimit
    unfold Heap.equalWithin
    split
    case h_5 | h_6 | h_7 | h_10 => exact absurd ⟨rfl, rfl⟩ hparts
    all_goals exact ⟨_, rfl⟩

/-- **Two values are equal when they match**, and only then. -/
theorem equal?_iff_matched (hc : h.Complete) (ha : a.Of (· < h.templates.size))
    (hb : b.Of (· < h.templates.size)) : h.equal? a b = some true ↔ h.Matched a b := by
  constructor
  · intro hsame
    obtain ⟨⟨same, seen⟩, hr, rfl⟩ := Option.map_eq_some_iff.mp hsame
    obtain ⟨hgathers, hab⟩ := equalWithin_found hr
    exact ⟨h.Found seen, hgathers.sustains, hab⟩
  · intro hab
    obtain ⟨r, hr⟩ := hab.ends hc ha hb (Nat.le_refl _) []
    rw [equal?, hr, Option.map_some, hab.equalWithin hr]

/-! ## Maps -/

/-- The limit of a comparison of maps is that of its entries. -/
theorem le_foldl_limit {pairs : List (Value × Option Value)} {x y : Value}
    (hxy : (x, some y) ∈ pairs) : h.equalityLimit x y ≤
      pairs.foldl (fun l p => max l (h.equalityLimit p.1 (p.2.getD .nil))) 0 := by
  have hle : h.equalityLimit x y ≤ pairs.toArray.foldl
      (fun l p => max l (h.equalityLimit p.1 (p.2.getD .nil))) 0 :=
    depth_le_foldl (f := fun p : Value × Option Value => h.equalityLimit p.1 (p.2.getD .nil))
      (List.mem_toArray.mpr hxy)
  simpa using hle

theorem of_get? {P : TemplateId → Prop} {m : OrderedMap Value} (hm : m.Lawful)
    (hall : ∀ e ∈ m.entries, e.2.Of P) {key : String} {x : Value} (hx : m.get? key = some x) :
    x.Of P :=
  hall (key, x) (Array.mem_toList_iff.mp (hm.mem_toList.mpr hx))

/-- **Two maps are equal** when they have the same size, and each value of the one matches the value
that the other has under its key. -/
theorem mapsEqual?_iff_matched (hc : h.Complete) {m n : OrderedMap Value} (hm : m.Lawful)
    (hn : n.Lawful) (hin : ∀ e ∈ m.entries, e.2.Of (· < h.templates.size))
    (hin' : ∀ e ∈ n.entries, e.2.Of (· < h.templates.size)) :
    h.mapsEqual? m n = some true ↔ m.size = n.size ∧
      ∀ key x, m.get? key = some x → ∃ y, n.get? key = some y ∧ h.Matched x y := by
  unfold mapsEqual?
  constructor
  · intro hsame
    by_cases hsize : m.size = n.size
    · rw [if_pos hsize] at hsame
      obtain ⟨⟨same, seen⟩, hall, rfl⟩ := Option.map_eq_some_iff.mp hsame
      obtain ⟨hgathers, hpairs⟩ := allEqual_true (G := h.Gathers) (Q := h.Found)
        (fun ha => Found.mono ha.sub) (fun s s' x y _ hxy => equalWithin_found hxy) hall
      refine ⟨hsize, fun key x hx => ?_⟩
      obtain ⟨y, hy, hxy⟩ := hpairs x _ ((mem_entryPairs hm).mpr ⟨key, hx, rfl⟩)
      exact ⟨y, hy, h.Found seen, hgathers.sustains, hxy⟩
    · rw [if_neg hsize] at hsame
      cases hsame
  · rintro ⟨hsize, hpartner⟩
    rw [if_pos hsize]
    extract_lets limit
    have hpair : ∀ x o, (x, o) ∈ entryPairs m n → ∃ y, o = some y ∧ h.Matched x y ∧
        x.Of (· < h.templates.size) ∧ y.Of (· < h.templates.size) := by
      intro x o hxo
      obtain ⟨key, hx, rfl⟩ := (mem_entryPairs hm).mp hxo
      obtain ⟨y, hy, hxy⟩ := hpartner key x hx
      exact ⟨y, hy, hxy, of_get? hm hin hx, of_get? hn hin' hy⟩
    have hends : ∀ seen, True → ∀ x y, (x, some y) ∈ entryPairs m n →
        ∃ r, h.equalWithin limit seen x y = some r ∧ True := by
      intro seen _ x y hxy
      obtain ⟨y', hy', hmatched, hx, hy⟩ := hpair x (some y) hxy
      cases hy'
      obtain ⟨r, hr⟩ := hmatched.ends hc hx hy (le_foldl_limit hxy) seen
      exact ⟨r, hr, trivial⟩
    obtain ⟨r, hr, -⟩ := allEqual_ends (I := fun _ => True) hends (trivial : True)
    have htrue : r.1 = true := by
      refine allEqual_of_forall (fun x o hxo => ?_) hr
      obtain ⟨y, rfl, hmatched, -⟩ := hpair x o hxo
      exact ⟨y, rfl, fun _ _ hxy => hmatched.equalWithin hxy⟩
    rw [hr, Option.map_some, htrue]

/-- **Two maps are equal** when they have the same keys, and under each key two values that are
equal. -/
theorem mapsEqual?_iff (hc : h.Complete) {m n : OrderedMap Value} (hm : m.Lawful) (hn : n.Lawful)
    (hin : ∀ e ∈ m.entries, e.2.Of (· < h.templates.size))
    (hin' : ∀ e ∈ n.entries, e.2.Of (· < h.templates.size)) :
    h.mapsEqual? m n = some true ↔ (∀ key, m.contains key = n.contains key) ∧
      ∀ key x y, m.get? key = some x → n.get? key = some y → h.equal? x y = some true := by
  rw [mapsEqual?_iff_matched hc hm hn hin hin', OrderedMap.partners_iff hm hn]
  refine and_congr_right fun _ => forall_congr' fun key => forall₂_congr fun x y => ?_
  refine forall₂_congr fun hx hy => ?_
  exact (equal?_iff_matched hc (of_get? hm hin hx) (of_get? hn hin' hy)).symm

end Heap

/-- **Ordered maps are lists of bindings**, whatever calls have made them: the answers on the way
are those of the list, and so are the answers of the map that has been made. Two such maps are equal
when their lists have the same keys, and under each of them two values that are equal. -/
theorem OrderedMap.made_refines (h : Heap) (calls calls' : List (MapCall Value)) :
    (made calls).1 = (Bindings.made calls).1 ∧ (made calls).2.Shows (Bindings.made calls).2 ∧
    (h.Complete → (∀ c ∈ calls ++ calls', ∀ v ∈ c.value?, v.Of (· < h.templates.size)) →
      (h.mapsEqual? (made calls).2 (made calls').2 = some true ↔
        (∀ key, key ∈ (Bindings.made calls).2.keys ↔ key ∈ (Bindings.made calls').2.keys) ∧
        ∀ key x y, (Bindings.made calls).2.lookup key = some x →
          (Bindings.made calls').2.lookup key = some y → h.equal? x y = some true)) := by
  obtain ⟨hanswers, hm⟩ := made_standsFor calls
  obtain ⟨-, hm'⟩ := made_standsFor calls'
  refine ⟨hanswers, hm.shows, fun hc hin => ?_⟩
  have hall := Bindings.all_made fun c hcall => hin c (List.mem_append_left _ hcall)
  have hall' := Bindings.all_made fun c hcall => hin c (List.mem_append_right _ hcall)
  rw [← hm.toList] at hall
  rw [← hm'.toList] at hall'
  have hkeys : ∀ key, (made calls).2.contains key = (made calls').2.contains key ↔
      (key ∈ (Bindings.made calls).2.keys ↔ key ∈ (Bindings.made calls').2.keys) := by
    intro key
    rw [Bool.eq_iff_iff, hm.shows.contains, hm'.shows.contains]
  rw [Heap.mapsEqual?_iff hc hm.lawful hm'.lawful
    (fun e he => hall e (Array.mem_toList_iff.mpr he))
    (fun e he => hall' e (Array.mem_toList_iff.mpr he))]
  simp only [hkeys, hm.get?, hm'.get?]

/-- The calls that make two maps from arrays that contain themselves, in different orders. -/
def shuffled : List (MapCall Value) × List (MapCall Value) :=
  ([.insert "a" .nil, .insert "b" (.array 0), .insert "a" (.array 1), .remove "b",
      .insert "c" (.bool true), .insert "b" (.array 0), .remove "d"],
    [.insert "b" (.array 1), .insert "c" (.bool true), .insert "a" (.array 0)])

theorem shuffled_equal : woven.Complete ∧
    (∀ c ∈ shuffled.1 ++ shuffled.2, ∀ v ∈ c.value?, v.Of (· < woven.templates.size)) ∧
    (OrderedMap.made shuffled.1).1 = [none, none, none, some (.array 0), none, none, none] ∧
    (OrderedMap.made shuffled.1).2.keys = ["a", "c", "b"] ∧
    woven.mapsEqual? (OrderedMap.made shuffled.1).2 (OrderedMap.made shuffled.2).2 = some true := by
  have hcomplete : woven.Complete := by decide
  have hin : ∀ c ∈ shuffled.1 ++ shuffled.2, ∀ v ∈ c.value?,
      v.Of (· < woven.templates.size) := by decide
  have hlist : (Bindings.made shuffled.1).2 =
      [("a", .array 1), ("c", .bool true), ("b", .array 0)] := by decide
  have hlist' : (Bindings.made shuffled.2).2 =
      [("b", .array 1), ("c", .bool true), ("a", .array 0)] := by decide
  obtain ⟨hanswers, hshows, hequal⟩ := OrderedMap.made_refines woven shuffled.1 shuffled.2
  refine ⟨hcomplete, hin, hanswers.trans (by decide), hshows.keys.trans (by decide),
    (hequal hcomplete hin).mpr ⟨fun key => ?_, fun key x y hx hy => ?_⟩⟩
  · rw [hlist, hlist']
    have hperm : ["a", "c", "b"].Perm ["b", "c", "a"] := by decide
    exact hperm.mem_iff
  · rw [hlist, Bindings.lookup_eq_some (by decide)] at hx
    rw [hlist', Bindings.lookup_eq_some (by decide)] at hy
    simp only [List.mem_cons, List.not_mem_nil, or_false, Prod.mk.injEq] at hx hy
    rcases hx with ⟨rfl, rfl⟩ | ⟨rfl, rfl⟩ | ⟨rfl, rfl⟩
    · obtain ⟨-, rfl⟩ : "a" = "a" ∧ y = .array 0 := by simpa using hy
      decide +kernel
    · obtain ⟨-, rfl⟩ : "c" = "c" ∧ y = .bool true := by simpa using hy
      decide +kernel
    · obtain ⟨-, rfl⟩ : "b" = "b" ∧ y = .array 1 := by simpa using hy
      decide +kernel

end TaskVm
