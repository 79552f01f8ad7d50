import TaskVm.Proofs.Globals
import TaskVm.Proofs.Regions
import Mathlib.Data.List.Perm.Subperm
import Mathlib.Order.Defs.Unbundled

/-!
# Equality is bisimilarity

Two values are equal when some relation holds between them that goes for their parts whenever it
goes for two values: the elements of arrays, the values under the same keys of maps, the receivers
of bound methods. A comparison looks for such a relation. What it has seen, when it ends well, is
one, because a pair that has been entered is either still under comparison or has been found to
match, and nothing that was seen is forgotten. Conversely nothing that is in such a relation is
ever found to differ.

That equality is symmetric and transitive is then a matter of relations and no longer of the order
in which parts are compared.
-/

namespace TaskVm

/-! ## Equality of what has no parts -/

namespace Number

theorem equal_iff {x y : Number} :
    x.equal y = true ↔ x.isNaN = false ∧ y.isNaN = false ∧ x.orderKey = y.orderKey := by
  unfold equal compare?
  by_cases hnan : (x.isNaN || y.isNaN) = true
  · rw [if_pos hnan]
    rw [Bool.or_eq_true] at hnan
    constructor
    · intro h
      cases h
    · rintro ⟨hx, hy, -⟩
      rw [hx, hy] at hnan
      simp at hnan
  · rw [if_neg hnan]
    rw [Bool.or_eq_true, not_or, Bool.not_eq_true, Bool.not_eq_true] at hnan
    rw [beq_iff_eq, Option.some_inj, Std.LawfulEqCmp.compare_eq_iff_eq]
    exact ⟨fun h => ⟨hnan.1, hnan.2, h⟩, fun h => h.2.2⟩

theorem equal_symm {x y : Number} (h : x.equal y = true) : y.equal x = true := by
  obtain ⟨hx, hy, hkey⟩ := equal_iff.mp h
  exact equal_iff.mpr ⟨hy, hx, hkey.symm⟩

theorem equal_trans {x y z : Number} (h : x.equal y = true) (h' : y.equal z = true) :
    x.equal z = true := by
  obtain ⟨hx, -, hkey⟩ := equal_iff.mp h
  obtain ⟨-, hz, hkey'⟩ := equal_iff.mp h'
  exact equal_iff.mpr ⟨hx, hz, hkey.trans hkey'⟩

end Number

namespace RuntimeError

/-- Two errors are equal when they are the same, but for the positions they are about. -/
theorem equal_iff {x y : RuntimeError} : x.equal y = true ↔
    (∃ i j n, x = .indexOutOfBounds i n ∧ y = .indexOutOfBounds j n ∧ i.equal j = true) ∨
      (x = y ∧ ∀ i n, x ≠ .indexOutOfBounds i n) := by
  unfold equal
  split
  · rename_i i n j m
    rw [Bool.and_eq_true, beq_iff_eq]
    constructor
    · rintro ⟨hij, rfl⟩
      exact .inl ⟨i, j, n, rfl, rfl, hij⟩
    · rintro (⟨i', j', n', hx, hy, hij⟩ | ⟨-, hne⟩)
      · cases hx
        cases hy
        exact ⟨hij, rfl⟩
      · exact absurd rfl (hne i n)
  · rename_i hne
    rw [beq_iff_eq]
    constructor
    · rintro rfl
      exact .inr ⟨rfl, fun i n hx => hne i n i n hx hx⟩
    · rintro (⟨i, j, n, hx, hy, -⟩ | ⟨heq, -⟩)
      · exact absurd hy (hne i n j n hx)
      · exact heq

theorem equal_symm {x y : RuntimeError} (h : x.equal y = true) : y.equal x = true := by
  rcases equal_iff.mp h with ⟨i, j, n, rfl, rfl, hij⟩ | ⟨rfl, hne⟩
  · exact equal_iff.mpr (.inl ⟨j, i, n, rfl, rfl, Number.equal_symm hij⟩)
  · exact h

theorem equal_trans {x y z : RuntimeError} (h : x.equal y = true) (h' : y.equal z = true) :
    x.equal z = true := by
  rcases equal_iff.mp h with ⟨i, j, n, rfl, rfl, hij⟩ | ⟨rfl, -⟩
  · rcases equal_iff.mp h' with ⟨j', k, m, hy, rfl, hjk⟩ | ⟨-, hne⟩
    · cases hy
      exact equal_iff.mpr (.inl ⟨i, k, n, rfl, rfl, Number.equal_trans hij hjk⟩)
    · exact absurd rfl (hne j n)
  · exact h'

end RuntimeError

namespace OrderedMap

variable {α : Type} {m n : OrderedMap α} {key : String}

theorem contains_iff (h : m.Lawful) : m.contains key = true ↔ ∃ x, m.get? key = some x := by
  unfold contains
  constructor
  · intro hc
    obtain ⟨i, hi⟩ := Option.isSome_iff_exists.mp hc
    rw [get?_eq hi]
    exact h.at? hi
  · rintro ⟨x, hx⟩
    obtain ⟨i, hi, -⟩ := Option.bind_eq_some_iff.mp hx
    rw [hi]
    rfl

theorem mem_keys (h : m.Lawful) : key ∈ m.keys ↔ m.contains key = true := by
  rw [contains_iff h, keys, List.mem_map]
  constructor
  · rintro ⟨⟨key, x⟩, hx, rfl⟩
    exact ⟨x, h.mem_toList.mp hx⟩
  · rintro ⟨x, hx⟩
    exact ⟨(key, x), h.mem_toList.mpr hx, rfl⟩

/-- No key has two entries. -/
theorem nodup_keys (h : m.Lawful) : m.keys.Nodup := by
  rw [List.nodup_iff_injective_getElem]
  rintro ⟨i, hi⟩ ⟨j, hj⟩ hij
  have hplace : ∀ l (hl : l < m.keys.length), m.place? m.keys[l] = some l := by
    intro l hl
    refine (h _ l).mpr ?_
    rw [← Array.getElem?_toList, ← List.getElem?_map]
    exact List.getElem?_eq_getElem hl
  have heq := (hplace i hi).symm.trans ((congrArg m.place? hij).trans (hplace j hj))
  exact Fin.ext (Option.some.inj heq)

/-- Two maps of the same size, one of which has all keys of the other, have the same keys. -/
theorem same_keys_iff (hm : m.Lawful) (hn : n.Lawful) :
    (∀ key, m.contains key = n.contains key) ↔
      m.size = n.size ∧ ∀ key, m.contains key = true → n.contains key = true := by
  have hlength : ∀ l : OrderedMap α, l.keys.length = l.size := fun l => by
    simp [keys, toList, size]
  constructor
  · intro hsame
    have hperm : m.keys.Perm n.keys := (List.perm_ext_iff_of_nodup (nodup_keys hm)
      (nodup_keys hn)).mpr fun key => by rw [mem_keys hm, mem_keys hn, hsame]
    exact ⟨by rw [← hlength, ← hlength, hperm.length_eq], fun key hkey => hsame key ▸ hkey⟩
  · rintro ⟨hsize, hsub⟩ key
    have hsubset : m.keys ⊆ n.keys := fun key hkey =>
      (mem_keys hn).mpr (hsub key ((mem_keys hm).mp hkey))
    have hperm := ((nodup_keys hm).subperm hsubset).perm_of_length_le
      (by rw [hlength, hlength, hsize])
    rw [Bool.eq_iff_iff, ← mem_keys hm, ← mem_keys hn]
    exact hperm.mem_iff

/-- As many entries with a partner each are the same keys with related values. -/
theorem partners_iff (hm : m.Lawful) (hn : n.Lawful) {Q : α → α → Prop} :
    (m.size = n.size ∧ ∀ key x, m.get? key = some x → ∃ y, n.get? key = some y ∧ Q x y) ↔
      (∀ key, m.contains key = n.contains key) ∧
        ∀ key x y, m.get? key = some x → n.get? key = some y → Q x y := by
  constructor
  · rintro ⟨hsize, hpartner⟩
    refine ⟨(same_keys_iff hm hn).mpr ⟨hsize, fun key hkey => ?_⟩, fun key x y hx hy => ?_⟩
    · obtain ⟨x, hx⟩ := (contains_iff hm).mp hkey
      obtain ⟨y, hy, -⟩ := hpartner key x hx
      exact (contains_iff hn).mpr ⟨y, hy⟩
    · obtain ⟨y', hy', hxy⟩ := hpartner key x hx
      cases hy.symm.trans hy'
      exact hxy
  · rintro ⟨hkeys, hrelated⟩
    obtain ⟨hsize, hsub⟩ := (same_keys_iff hm hn).mp hkeys
    refine ⟨hsize, fun key x hx => ?_⟩
    obtain ⟨y, hy⟩ := (contains_iff hn).mp (hsub key ((contains_iff hm).mpr ⟨x, hx⟩))
    exact ⟨y, hy, hrelated key x y hx hy⟩

end OrderedMap

/-! ## Relations between values -/

/-- Two values are equal that have no parts. -/
inductive Heap.SameScalar (h : Heap) : Value → Value → Prop where
  | nil : h.SameScalar .nil .nil
  | bool (b : Bool) : h.SameScalar (.bool b) (.bool b)
  /-- A NaN is not equal to itself. -/
  | number {x y : Number} (hxy : x.equal y = true) : h.SameScalar (.number x) (.number y)
  | string (s : String) : h.SameScalar (.string s) (.string s)
  | closure (i : ClosureId) : h.SameScalar (.closure i) (.closure i)
  | native (i : NativeId) : h.SameScalar (.native i) (.native i)
  | channel (i : ChannelId) : h.SameScalar (.channel i) (.channel i)
  | task {i j : HandleId} (hid : (h.handle i).id = (h.handle j).id) :
      h.SameScalar (.task i) (.task j)
  | error {x y : RuntimeError} (hxy : x.equal y = true) : h.SameScalar (.error x) (.error y)

/-- Two functions agree in all that is no constant: in what they declare, in their code and in its
lines. -/
structure Heap.SameFrame (h : Heap) (s t : Template) : Prop where
  name : s.name = t.name
  arity : s.arity = t.arity
  variadic : s.variadic = t.variadic
  localCount : s.localCount = t.localCount
  upvalueCount : s.upvalueCount = t.upvalueCount
  code : (h.chunk s.chunk).code = (h.chunk t.chunk).code
  lines : (h.chunk s.chunk).lines = (h.chunk t.chunk).lines

/-- Two constants are equal: functions that agree and have equal constants are. -/
inductive Heap.SameConstant (h : Heap) : Value → Value → Prop where
  | scalar {a b : Value} (hab : h.SameScalar a b) : h.SameConstant a b
  | itself (i : TemplateId) : h.SameConstant (.function i) (.function i)
  | function {i j : TemplateId} (hframe : h.SameFrame (h.template i) (h.template j))
      (hsize : (h.chunk (h.template i).chunk).constants.size =
        (h.chunk (h.template j).chunk).constants.size)
      (hparts : ∀ (k : Nat) x y, (h.chunk (h.template i).chunk).constants[k]? = some x →
        (h.chunk (h.template j).chunk).constants[k]? = some y → h.SameConstant x y) :
      h.SameConstant (.function i) (.function j)

/-- Two values match when they are equal as far as can be seen without looking at their parts, and
their parts are in a relation. -/
inductive Heap.Matches (h : Heap) (R : Value → Value → Prop) : Value → Value → Prop where
  | scalar {a b : Value} (hab : h.SameScalar a b) : h.Matches R a b
  | function {i j : TemplateId} (hij : h.SameConstant (.function i) (.function j)) :
      h.Matches R (.function i) (.function j)
  | sameArray (i : ArrayId) : h.Matches R (.array i) (.array i)
  | array {i j : ArrayId} (hsize : (h.array i).size = (h.array j).size)
      (hparts : ∀ (k : Nat) x y, (h.array i)[k]? = some x → (h.array j)[k]? = some y → R x y) :
      h.Matches R (.array i) (.array j)
  | sameMap (i : MapId) : h.Matches R (.map i) (.map i)
  | map {i j : MapId} (hkeys : ∀ key, (h.map i).contains key = (h.map j).contains key)
      (hparts : ∀ key x y, (h.map i).get? key = some x → (h.map j).get? key = some y → R x y) :
      h.Matches R (.map i) (.map j)
  | boundMethod {x y : Value} (hxy : R x y) (name : String) :
      h.Matches R (.boundMethod x name) (.boundMethod y name)

/-- A relation that goes for the parts of all values that it goes for. -/
def Heap.Bisimulation (h : Heap) (R : Value → Value → Prop) : Prop :=
  ∀ a b, R a b → h.Matches R a b

/-- Some such relation goes for two values. -/
def Heap.Bisimilar (h : Heap) (a b : Value) : Prop := ∃ R, h.Bisimulation R ∧ R a b

namespace Heap

variable {h : Heap} {R S : Value → Value → Prop} {a b c : Value}

theorem SameScalar.symm (hab : h.SameScalar a b) : h.SameScalar b a := by
  cases hab with
  | number hxy => exact .number (Number.equal_symm hxy)
  | task hid => exact .task hid.symm
  | error hxy => exact .error (RuntimeError.equal_symm hxy)
  | nil => exact .nil
  | bool | string | closure | native | channel => constructor

theorem SameScalar.trans (hab : h.SameScalar a b) (hbc : h.SameScalar b c) : h.SameScalar a c := by
  cases hab with
  | number hxy =>
    cases hbc with
    | number hyz => exact .number (Number.equal_trans hxy hyz)
  | task hid =>
    cases hbc with
    | task hid' => exact .task (hid.trans hid')
  | error hxy =>
    cases hbc with
    | error hyz => exact .error (RuntimeError.equal_trans hxy hyz)
  | nil | bool | string | closure | native | channel => exact hbc

theorem SameFrame.symm {s t : Template} (hst : h.SameFrame s t) : h.SameFrame t s :=
  ⟨hst.name.symm, hst.arity.symm, hst.variadic.symm, hst.localCount.symm, hst.upvalueCount.symm,
    hst.code.symm, hst.lines.symm⟩

theorem SameFrame.trans {s t u : Template} (hst : h.SameFrame s t) (htu : h.SameFrame t u) :
    h.SameFrame s u :=
  ⟨hst.name.trans htu.name, hst.arity.trans htu.arity, hst.variadic.trans htu.variadic,
    hst.localCount.trans htu.localCount, hst.upvalueCount.trans htu.upvalueCount,
    hst.code.trans htu.code, hst.lines.trans htu.lines⟩

theorem SameConstant.symm (hab : h.SameConstant a b) : h.SameConstant b a := by
  induction hab with
  | scalar hab => exact .scalar hab.symm
  | itself i => exact .itself i
  | function hframe hsize _ ih =>
    exact .function hframe.symm hsize.symm fun k x y hx hy => ih k y x hy hx

/-- Between two arrays of one size, what is in the one has its counterpart in the other. -/
theorem exists_beside {xs ys : Array Value} (hsize : xs.size = ys.size) {k : Nat} {x : Value}
    (hx : xs[k]? = some x) : ∃ y, ys[k]? = some y := by
  obtain ⟨hk, -⟩ := Array.getElem?_eq_some_iff.mp hx
  exact ⟨ys[k], Array.getElem?_eq_getElem (hsize ▸ hk)⟩

theorem SameConstant.trans (hab : h.SameConstant a b) :
    ∀ {c}, h.SameConstant b c → h.SameConstant a c := by
  induction hab with
  | scalar hab =>
    intro c hbc
    cases hbc with
    | scalar hbc => exact .scalar (hab.trans hbc)
    | itself | function => nomatch hab
  | itself i => exact fun hbc => hbc
  | function hframe hsize hparts ih =>
    intro c hbc
    cases hbc with
    | scalar hbc => nomatch hbc
    | itself => exact .function hframe hsize hparts
    | function hframe' hsize' hparts' =>
      refine .function (hframe.trans hframe') (hsize.trans hsize') fun k x z hx hz => ?_
      obtain ⟨y, hy⟩ := exists_beside hsize hx
      exact ih k x y hx hy (hparts' k y z hy hz)

theorem Matches.mono (hRS : ∀ x y, R x y → S x y) (hab : h.Matches R a b) : h.Matches S a b := by
  cases hab with
  | scalar hab => exact .scalar hab
  | function hij => exact .function hij
  | sameArray i => exact .sameArray i
  | array hsize hparts => exact .array hsize fun k x y hx hy => hRS x y (hparts k x y hx hy)
  | sameMap i => exact .sameMap i
  | map hkeys hparts => exact .map hkeys fun key x y hx hy => hRS x y (hparts key x y hx hy)
  | boundMethod hxy name => exact .boundMethod (hRS _ _ hxy) name

theorem Matches.symm (hab : h.Matches R a b) : h.Matches (flip R) b a := by
  cases hab with
  | scalar hab => exact .scalar hab.symm
  | function hij => exact .function hij.symm
  | sameArray i => exact .sameArray i
  | array hsize hparts => exact .array hsize.symm fun k x y hx hy => hparts k y x hy hx
  | sameMap i => exact .sameMap i
  | map hkeys hparts =>
    exact .map (fun key => (hkeys key).symm) fun key x y hx hy => hparts key y x hy hx
  | boundMethod hxy name => exact .boundMethod (show flip R _ _ from hxy) name

/-- Values match across a value that both match. An object that matches itself says nothing of its
parts, so the relations themselves have to be there beside their composition. -/
theorem Matches.trans (hlawful : ∀ i, (h.map i).Lawful) (hab : h.Matches R a b)
    (hbc : h.Matches S b c) :
    h.Matches (fun x z => R x z ∨ S x z ∨ ∃ y, R x y ∧ S y z) a c := by
  cases hab with
  | scalar hab =>
    cases hbc with
    | scalar hbc => exact .scalar (hab.trans hbc)
    | function | sameArray | array | sameMap | map | boundMethod => nomatch hab
  | function hij =>
    cases hbc with
    | scalar hbc => nomatch hbc
    | function hjk => exact .function (hij.trans hjk)
  -- What is the same collection on one side adds nothing of its own.
  | sameArray i => exact hbc.mono fun x y hxy => .inr (.inl hxy)
  | sameMap i => exact hbc.mono fun x y hxy => .inr (.inl hxy)
  | array hsize hparts =>
    cases hbc with
    | scalar hbc => nomatch hbc
    | sameArray => exact .array hsize fun k x y hx hy => .inl (hparts k x y hx hy)
    | array hsize' hparts' =>
      refine .array (hsize.trans hsize') fun k x z hx hz => .inr (.inr ?_)
      obtain ⟨y, hy⟩ := exists_beside hsize hx
      exact ⟨y, hparts k x y hx hy, hparts' k y z hy hz⟩
  | @map i j hkeys hparts =>
    cases hbc with
    | scalar hbc => nomatch hbc
    | sameMap => exact .map hkeys fun key x y hx hy => .inl (hparts key x y hx hy)
    | map hkeys' hparts' =>
      refine .map (fun key => (hkeys key).trans (hkeys' key)) fun key x z hx hz => .inr (.inr ?_)
      have hkey : (h.map j).contains key = true := by
        rw [← hkeys]
        exact (OrderedMap.contains_iff (hlawful i)).mpr ⟨x, hx⟩
      obtain ⟨y, hy⟩ := (OrderedMap.contains_iff (hlawful j)).mp hkey
      exact ⟨y, hparts key x y hx hy, hparts' key y z hy hz⟩
  | boundMethod hxy name =>
    cases hbc with
    | scalar hbc => nomatch hbc
    | boundMethod hyz => exact .boundMethod (.inr (.inr ⟨_, hxy, hyz⟩)) name

theorem Bisimilar.symm (hab : h.Bisimilar a b) : h.Bisimilar b a := by
  obtain ⟨R, hR, hab⟩ := hab
  exact ⟨flip R, fun x y hyx => (hR y x hyx).symm, hab⟩

theorem Bisimilar.trans (hlawful : ∀ i, (h.map i).Lawful) (hab : h.Bisimilar a b)
    (hbc : h.Bisimilar b c) : h.Bisimilar a c := by
  obtain ⟨R, hR, hab⟩ := hab
  obtain ⟨S, hS, hbc⟩ := hbc
  refine ⟨fun x z => R x z ∨ S x z ∨ ∃ y, R x y ∧ S y z, fun x z hxz => ?_,
    .inr (.inr ⟨b, hab, hbc⟩)⟩
  rcases hxz with hxz | hxz | ⟨y, hxy, hyz⟩
  · exact (hR x z hxz).mono fun _ _ hab => .inl hab
  · exact (hS x z hxz).mono fun _ _ hab => .inr (.inl hab)
  · exact (hR x y hxy).trans hlawful (hS y z hyz)

/-! ## Pairs of parts -/

theorem mem_elementPairs {xs ys : Array Value} {x : Value} {o : Option Value} :
    (x, o) ∈ elementPairs xs ys ↔
      ∃ (k : Nat) (y : Value), xs[k]? = some x ∧ ys[k]? = some y ∧ o = some y := by
  unfold elementPairs
  rw [List.mem_iff_getElem?]
  refine exists_congr fun k => ?_
  rw [List.getElem?_zip_eq_some, List.getElem?_map, Array.getElem?_toList, Array.getElem?_toList]
  constructor
  · rintro ⟨hx, hy⟩
    obtain ⟨y, hy, ho⟩ := Option.map_eq_some_iff.mp hy
    exact ⟨y, hx, hy, ho.symm⟩
  · rintro ⟨y, hx, hy, rfl⟩
    exact ⟨hx, by rw [hy]; rfl⟩

theorem mem_entryPairs {m n : OrderedMap Value} (hm : m.Lawful) {x : Value} {o : Option Value} :
    (x, o) ∈ entryPairs m n ↔ ∃ key, m.get? key = some x ∧ o = n.get? key := by
  unfold entryPairs
  rw [List.mem_map]
  constructor
  · rintro ⟨⟨key, y⟩, he, hpair⟩
    obtain ⟨rfl, rfl⟩ := Prod.mk.inj hpair
    exact ⟨key, hm.mem_toList.mp he, rfl⟩
  · rintro ⟨key, hx, rfl⟩
    exact ⟨(key, x), hm.mem_toList.mpr hx, rfl⟩

/-! ## What is found to be equal -/

/-- When all pairs are found to be equal, what is known of each of them is known in the end. -/
theorem allEqual_true {eq : Seen → Value → Value → Option (Bool × Seen)} {G : Seen → Seen → Prop}
    [IsPreorder Seen G] {Q : Seen → Value → Value → Prop}
    (hQ : ∀ {s s' x y}, G s s' → Q s x y → Q s' x y) :
    ∀ {pairs : List (Value × Option Value)} {seen seen' : Seen},
    (∀ s s' x y, (x, some y) ∈ pairs → eq s x y = some (true, s') → G s s' ∧ Q s' x y) →
    allEqual eq seen pairs = some (true, seen') →
    G seen seen' ∧ ∀ x o, (x, o) ∈ pairs → ∃ y, o = some y ∧ Q seen' x y
  | [], seen, seen', _, h => by
    obtain ⟨-, rfl⟩ := Prod.mk.inj (Option.some.inj h)
    exact ⟨refl_of G seen, nofun⟩
  | (_, none) :: _, _, _, _, h => by
    cases h
  | (a, some b) :: rest, seen, seen', heq, h => by
    unfold allEqual at h
    split at h
    · rename_i seen₁ hab
      obtain ⟨hG₁, hQ₁⟩ := heq seen seen₁ a b List.mem_cons_self hab
      obtain ⟨hG₂, hrest⟩ := allEqual_true (G := G) (Q := Q) hQ
        (fun s s' x y hxy => heq s s' x y (List.mem_cons_of_mem _ hxy)) h
      refine ⟨trans_of G hG₁ hG₂, fun x o hxo => ?_⟩
      rcases List.mem_cons.mp hxo with hhead | htail
      · obtain ⟨rfl, rfl⟩ := Prod.mk.inj hhead
        exact ⟨b, rfl, hQ hG₂ hQ₁⟩
      · exact hrest x o htail
    · rename_i hother
      exact absurd h (hother seen')

theorem SameFrame.of_sameHead {s t : Template} (hhead : h.sameHead s t = true)
    (hlines : (h.chunk s.chunk).lines = (h.chunk t.chunk).lines) : h.SameFrame s t := by
  unfold sameHead at hhead
  simp only [Bool.and_eq_true, beq_iff_eq] at hhead
  obtain ⟨⟨⟨⟨⟨hname, harity⟩, hvariadic⟩, hlocals⟩, hupvalues⟩, hcode⟩ := hhead
  exact ⟨hname, harity, hvariadic, hlocals, hupvalues, hcode, hlines⟩

theorem SameFrame.sameHead {s t : Template} (hst : h.SameFrame s t) : h.sameHead s t = true := by
  unfold Heap.sameHead
  simp only [Bool.and_eq_true, beq_iff_eq]
  exact ⟨⟨⟨⟨⟨hst.name, hst.arity⟩, hst.variadic⟩, hst.localCount⟩, hst.upvalueCount⟩, hst.code⟩

/-- A constant that is found to be equal to something is, when functions are. -/
theorem literal_true {x y : Value} (hx : x.Literal) {limit : Nat} {seen seen' : Seen}
    (hf : ∀ i j, x = .function i → y = .function j → h.SameConstant x y)
    (heq : h.equalWithin limit seen x y = some (true, seen')) : h.SameConstant x y := by
  cases limit with
  | zero => cases heq
  | succ limit =>
    unfold equalWithin at heq
    split at heq
    case h_1 => exact .scalar .nil
    case h_2 =>
      cases beq_iff_eq.mp (Prod.mk.inj (Option.some.inj heq)).1
      exact .scalar (.bool _)
    case h_3 => exact .scalar (.number (Prod.mk.inj (Option.some.inj heq)).1)
    case h_4 =>
      cases beq_iff_eq.mp (Prod.mk.inj (Option.some.inj heq)).1
      exact .scalar (.string _)
    case h_7 => exact hf _ _ rfl rfl
    case h_14 => cases heq
    all_goals exact hx.elim

/-- Each pair may be compared on its own, with no memory of the others. -/
instance : IsPreorder Seen fun _ _ => True where
  refl _ := trivial
  trans _ _ _ _ _ := trivial

/-- Two functions that are found to be equal are the same, or agree and have constants that are
found to be equal. Nothing is remembered of their comparison. -/
theorem function_true {limit : Nat} {seen seen' : Seen} {i j : TemplateId}
    (heq : h.equalWithin (limit + 1) seen (.function i) (.function j) = some (true, seen')) :
    seen' = seen ∧ (i = j ∨ h.SameFrame (h.template i) (h.template j) ∧
      (h.chunk (h.template i).chunk).constants.size =
        (h.chunk (h.template j).chunk).constants.size ∧
      ∃ s, allEqual (fun _ => h.equalWithin limit []) [] (elementPairs
        (h.chunk (h.template i).chunk).constants (h.chunk (h.template j).chunk).constants) =
        some (true, s)) := by
  unfold equalWithin at heq
  dsimp only at heq
  split at heq
  · rename_i hij
    cases heq
    exact ⟨rfl, .inl hij⟩
  · split at heq
    · rename_i hsame
      obtain ⟨hhead, hsize⟩ := Bool.and_eq_true_iff.mp hsame
      split at heq
      · rename_i s hall
        obtain ⟨hboth, rfl⟩ := Prod.mk.inj (Option.some.inj heq)
        obtain ⟨rfl, hlines⟩ := Bool.and_eq_true_iff.mp hboth
        exact ⟨rfl, .inr ⟨.of_sameHead hhead (beq_iff_eq.mp hlines), beq_iff_eq.mp hsize, s, hall⟩⟩
      · cases heq
    · cases heq

/-- Two functions that are found to be equal are. -/
theorem Plain.sameConstant {i : TemplateId} (hi : h.Plain i) :
    ∀ {limit : Nat} {seen seen' : Seen} {j : TemplateId},
      h.equalWithin limit seen (.function i) (.function j) = some (true, seen') →
      h.SameConstant (.function i) (.function j) := by
  induction hi with
  | @of_constants i _ hl _ ih =>
    intro limit seen seen' j heq
    cases limit with
    | zero => cases heq
    | succ limit =>
      obtain ⟨-, rfl | ⟨hframe, hsize, s, hall⟩⟩ := function_true heq
      · exact .itself i
      · obtain ⟨-, hconstant⟩ := allEqual_true (G := fun _ _ => True)
          (Q := fun _ => h.SameConstant) (fun _ hxy => hxy) (fun s s' x y hmem hxy => by
            obtain ⟨k, -, hx, -⟩ := mem_elementPairs.mp hmem
            have hx := Array.mem_of_getElem? hx
            refine ⟨trivial, literal_true (hl x hx) ?_ hxy⟩
            rintro i' j' rfl rfl
            exact ih i' hx hxy) hall
        refine .function hframe hsize fun k x y hx hy => ?_
        obtain ⟨y', hy', hxy⟩ := hconstant x (some y) (mem_elementPairs.mpr ⟨k, y, hx, hy, rfl⟩)
        cases hy'
        exact hxy

/-- What a comparison has found when it has seen some pairs: the two are one of these pairs, or
there was no need to enter them. -/
inductive Held (h : Heap) (seen : Seen) : Value → Value → Prop where
  | scalar {a b : Value} (hab : h.SameScalar a b) : h.Held seen a b
  | function {i j : TemplateId} (hij : h.SameConstant (.function i) (.function j)) :
      h.Held seen (.function i) (.function j)
  | sameArray (i : ArrayId) : h.Held seen (.array i) (.array i)
  | sameMap (i : MapId) : h.Held seen (.map i) (.map i)
  | boundMethod {x y : Value} (hxy : h.Held seen x y) (name : String) :
      h.Held seen (.boundMethod x name) (.boundMethod y name)
  | entered {a b : Value} (hab : (a, b) ∈ seen) : h.Held seen a b

/-- Pairs have been entered and left again: those that are new match. -/
structure Grows (h : Heap) (seen seen' : Seen) : Prop where
  sub : seen ⊆ seen'
  matched : ∀ p ∈ seen', p ∈ seen ∨ h.Matches (h.Held seen') p.1 p.2

theorem Held.mono {seen seen' : Seen} (hsub : seen ⊆ seen') (hab : h.Held seen a b) :
    h.Held seen' a b := by
  induction hab with
  | scalar hab => exact .scalar hab
  | function hij => exact .function hij
  | sameArray i => exact .sameArray i
  | sameMap i => exact .sameMap i
  | boundMethod _ name ih => exact .boundMethod ih name
  | entered hab => exact .entered (hsub hab)

instance : IsPreorder Seen h.Grows where
  refl _ := ⟨List.Subset.refl _, fun _ hp => .inl hp⟩
  trans s s' s'' hs hs' := by
    refine ⟨List.Subset.trans hs.sub hs'.sub, fun p hp => ?_⟩
    rcases hs'.matched p hp with hp | hp
    · exact (hs.matched p hp).imp_right (·.mono fun _ _ => Held.mono hs'.sub)
    · exact .inr hp

/-- When the parts of a pair that has been entered are found to be equal, the pair matches. -/
theorem Grows.leave {seen seen' : Seen} (hg : h.Grows ((a, b) :: seen) seen')
    (hab : h.Matches (h.Held seen') a b) : h.Grows seen seen' ∧ h.Held seen' a b := by
  refine ⟨⟨fun p hp => hg.sub (List.mem_cons_of_mem _ hp), fun p hp => ?_⟩,
    .entered (hg.sub List.mem_cons_self)⟩
  rcases hg.matched p hp with hp | hp
  · rcases List.mem_cons.mp hp with rfl | hp
    · exact .inr hab
    · exact .inl hp
  · exact .inr hp

theorem Grows.leave_arrays {seen seen' : Seen} {i j : ArrayId}
    (hg : h.Grows ((.array i, .array j) :: seen) seen') (hsize : (h.array i).size = (h.array j).size)
    (hparts : ∀ x o, (x, o) ∈ elementPairs (h.array i) (h.array j) →
      ∃ y, o = some y ∧ h.Held seen' x y) :
    h.Grows seen seen' ∧ h.Held seen' (.array i) (.array j) := by
  refine hg.leave (.array hsize fun k x y hx hy => ?_)
  obtain ⟨y', hy', hxy⟩ := hparts x (some y) (mem_elementPairs.mpr ⟨k, y, hx, hy, rfl⟩)
  cases hy'
  exact hxy

theorem Grows.leave_maps (hlawful : ∀ i, (h.map i).Lawful) {seen seen' : Seen} {i j : MapId}
    (hg : h.Grows ((.map i, .map j) :: seen) seen') (hsize : (h.map i).size = (h.map j).size)
    (hparts : ∀ x o, (x, o) ∈ entryPairs (h.map i) (h.map j) →
      ∃ y, o = some y ∧ h.Held seen' x y) :
    h.Grows seen seen' ∧ h.Held seen' (.map i) (.map j) := by
  obtain ⟨hkeys, hrelated⟩ := (OrderedMap.partners_iff (hlawful i) (hlawful j)).mp
    ⟨hsize, fun key x hx => hparts x _ ((mem_entryPairs (hlawful i)).mpr ⟨key, hx, rfl⟩)⟩
  exact hg.leave (.map hkeys hrelated)

/-- **What is found to be equal matches as far as it has been seen.** -/
theorem equalWithin_true (hplain : h.AllOf h.Plain) (hlawful : ∀ i, (h.map i).Lawful) :
    ∀ {limit : Nat} {seen seen' : Seen} {a b : Value}, a.Of h.Plain →
      h.equalWithin limit seen a b = some (true, seen') →
        h.Grows seen seen' ∧ h.Held seen' a b := by
  intro limit
  induction limit with
  | zero =>
    intro _ _ _ _ _ heq
    cases heq
  | succ limit ih =>
    intro seen seen' a b ha heq
    -- Most comparisons enter nothing.
    have hstay : ∀ {same : Bool} {x y : Value}, some (same, seen) = some (true, seen') →
        (same = true → h.Held seen x y) → h.Grows seen seen' ∧ h.Held seen' x y := by
      intro same x y hsame hxy
      obtain ⟨rfl, rfl⟩ := Prod.mk.inj (Option.some.inj hsame)
      exact ⟨refl_of h.Grows seen, hxy rfl⟩
    unfold equalWithin at heq
    split at heq
    case h_1 => exact hstay heq fun _ => .scalar .nil
    case h_2 =>
      refine hstay heq fun hxy => ?_
      cases beq_iff_eq.mp hxy
      exact .scalar (.bool _)
    case h_3 => exact hstay heq fun hxy => .scalar (.number hxy)
    case h_4 =>
      refine hstay heq fun hxy => ?_
      cases beq_iff_eq.mp hxy
      exact .scalar (.string _)
    case h_5 i j =>
      split at heq
      · rename_i hknown
        refine hstay heq fun _ => ?_
        rcases Bool.or_eq_true_iff.mp hknown with hij | hseen
        · cases of_decide_eq_true hij
          exact .sameArray i
        · exact .entered (List.contains_iff_mem.mp hseen)
      · split at heq
        · rename_i hsize
          obtain ⟨hg, hparts⟩ := allEqual_true (G := h.Grows) (Q := h.Held)
            (fun hg => Held.mono hg.sub) (fun s s' x y hmem hxy => by
              obtain ⟨k, -, hx, -⟩ := mem_elementPairs.mp hmem
              exact ih (hplain.array i x (Array.mem_of_getElem? hx)) hxy) heq
          exact hg.leave_arrays hsize hparts
        · cases heq
    case h_6 i j =>
      split at heq
      · rename_i hknown
        refine hstay heq fun _ => ?_
        rcases Bool.or_eq_true_iff.mp hknown with hij | hseen
        · cases of_decide_eq_true hij
          exact .sameMap i
        · exact .entered (List.contains_iff_mem.mp hseen)
      · split at heq
        · rename_i hsize
          obtain ⟨hg, hparts⟩ := allEqual_true (G := h.Grows) (Q := h.Held)
            (fun hg => Held.mono hg.sub) (fun s s' x y hmem hxy => by
              obtain ⟨e, he, rfl⟩ := mem_of_entryPairs hmem
              exact ih (hplain.map i e he) hxy) heq
          exact hg.leave_maps hlawful hsize hparts
        · cases heq
    case h_7 i j =>
      have hfunction : h.equalWithin (limit + 1) seen (.function i) (.function j) =
          some (true, seen') := heq
      obtain ⟨rfl, -⟩ := function_true hfunction
      exact ⟨refl_of h.Grows _, .function (Plain.sameConstant ha hfunction)⟩
    case h_8 =>
      refine hstay heq fun hxy => ?_
      cases beq_iff_eq.mp hxy
      exact .scalar (.closure _)
    case h_9 =>
      refine hstay heq fun hxy => ?_
      cases beq_iff_eq.mp hxy
      exact .scalar (.native _)
    case h_10 x m y n =>
      split at heq
      · rename_i hname
        cases hname
        obtain ⟨hg, hxy⟩ := ih (a := x) ha heq
        exact ⟨hg, .boundMethod hxy m⟩
      · cases heq
    case h_11 =>
      refine hstay heq fun hxy => ?_
      cases beq_iff_eq.mp hxy
      exact .scalar (.channel _)
    case h_12 => exact hstay heq fun hxy => .scalar (.task (beq_iff_eq.mp hxy))
    case h_13 => exact hstay heq fun hxy => .scalar (.error hxy)
    case h_14 => cases heq

/-- All that has been seen by a comparison that has come to an end is in a bisimulation. -/
theorem Grows.bisimulation {seen : Seen} (hg : h.Grows [] seen) : h.Bisimulation (h.Held seen) := by
  intro a b hab
  cases hab with
  | scalar hab => exact .scalar hab
  | function hij => exact .function hij
  | sameArray i => exact .sameArray i
  | sameMap i => exact .sameMap i
  | boundMethod hxy name => exact .boundMethod hxy name
  | entered hab => exact (hg.matched _ hab).resolve_left List.not_mem_nil

/-! ## What is never found to differ -/

theorem allEqual_of_forall {eq : Seen → Value → Value → Option (Bool × Seen)} :
    ∀ {pairs : List (Value × Option Value)} {seen : Seen} {r : Bool × Seen},
    (∀ x o, (x, o) ∈ pairs → ∃ y, o = some y ∧ ∀ s r, eq s x y = some r → r.1 = true) →
    allEqual eq seen pairs = some r → r.1 = true
  | [], _, _, _, h => by
    cases h
    rfl
  | (_, none) :: _, _, _, heq, _ => by
    obtain ⟨_, hnone, -⟩ := heq _ _ List.mem_cons_self
    cases hnone
  | (a, some b) :: rest, seen, r, heq, h => by
    have hrest := fun x o hxo => heq x o (List.mem_cons_of_mem _ hxo)
    obtain ⟨_, hb, hab⟩ := heq a (some b) List.mem_cons_self
    cases hb
    unfold allEqual at h
    cases hr : eq seen a b with
    | none =>
      rw [hr] at h
      cases h
    | some r' =>
      obtain ⟨same, seen'⟩ := r'
      obtain rfl : same = true := hab seen _ hr
      rw [hr] at h
      exact allEqual_of_forall hrest h

theorem SameScalar.equalWithin (hab : h.SameScalar a b) {limit : Nat} {seen : Seen}
    {r : Bool × Seen} (heq : h.equalWithin limit seen a b = some r) : r.1 = true := by
  cases limit with
  | zero => cases heq
  | succ limit =>
    cases hab with
    | number hxy =>
      cases heq
      exact hxy
    | error hxy =>
      cases heq
      exact hxy
    | task hid =>
      cases heq
      exact beq_iff_eq.mpr hid
    | nil =>
      cases heq
      rfl
    | bool | string | closure | native | channel =>
      cases heq
      exact beq_self_eq_true _

theorem SameConstant.equalWithin (hab : h.SameConstant a b) :
    ∀ {limit : Nat} {seen : Seen} {r : Bool × Seen},
      h.equalWithin limit seen a b = some r → r.1 = true := by
  induction hab with
  | scalar hab => exact hab.equalWithin
  | itself i =>
    intro limit seen r heq
    cases limit with
    | zero => cases heq
    | succ limit =>
      unfold Heap.equalWithin at heq
      dsimp only at heq
      rw [if_pos rfl] at heq
      cases heq
      rfl
  | @function i j hframe hsize hparts ih =>
    intro limit seen r heq
    cases limit with
    | zero => cases heq
    | succ limit =>
      unfold Heap.equalWithin at heq
      dsimp only at heq
      split at heq
      · cases heq
        rfl
      · rw [if_pos (Bool.and_eq_true_iff.mpr ⟨hframe.sameHead, beq_iff_eq.mpr hsize⟩)] at heq
        split at heq
        · rename_i same s hall
          have hsame := allEqual_of_forall (fun x o hxo => by
            obtain ⟨k, y, hx, hy, rfl⟩ := mem_elementPairs.mp hxo
            exact ⟨y, rfl, fun _ _ hxy => ih k x y hx hy hxy⟩) hall
          cases heq
          exact Bool.and_eq_true_iff.mpr ⟨hsame, beq_iff_eq.mpr hframe.lines⟩
        · cases heq

/-- **What is in a bisimulation is never found to differ.** -/
theorem Bisimulation.equalWithin (hlawful : ∀ i, (h.map i).Lawful) (hR : h.Bisimulation R) :
    ∀ {limit : Nat} {seen : Seen} {a b : Value} {r : Bool × Seen}, R a b →
      h.equalWithin limit seen a b = some r → r.1 = true := by
  intro limit
  induction limit with
  | zero =>
    intro _ _ _ _ _ heq
    cases heq
  | succ limit ih =>
    intro seen a b r hab heq
    -- The cases are those of the comparison: values told apart at once, a collection and itself,
    -- and collections compared by their parts unless the pair has been seen.
    cases hR a b hab with
    | scalar hab => exact hab.equalWithin heq
    | function hij => exact hij.equalWithin heq
    | sameArray i =>
      unfold Heap.equalWithin at heq
      dsimp only at heq
      rw [if_pos (by simp)] at heq
      cases heq
      rfl
    | sameMap i =>
      unfold Heap.equalWithin at heq
      dsimp only at heq
      rw [if_pos (by simp)] at heq
      cases heq
      rfl
    | @array i j hsize hparts =>
      unfold Heap.equalWithin at heq
      dsimp only at heq
      split at heq
      · cases heq
        rfl
      · refine allEqual_of_forall (fun x o hxo => ?_) heq
        obtain ⟨k, y, hx, hy, rfl⟩ := mem_elementPairs.mp hxo
        exact ⟨y, rfl, fun _ _ hxy => ih (hparts k x y hx hy) hxy⟩
    | @map i j hkeys hparts =>
      unfold Heap.equalWithin at heq
      dsimp only at heq
      split at heq
      · cases heq
        rfl
      · obtain ⟨hsize, hpartner⟩ :=
          (OrderedMap.partners_iff (hlawful i) (hlawful j)).mpr ⟨hkeys, hparts⟩
        rw [if_pos hsize] at heq
        refine allEqual_of_forall (fun x o hxo => ?_) heq
        obtain ⟨key, hx, rfl⟩ := (mem_entryPairs (hlawful i)).mp hxo
        obtain ⟨y, hy, hxy⟩ := hpartner key x hx
        exact ⟨y, hy, fun _ _ heq => ih hxy heq⟩
    | boundMethod hxy name =>
      unfold Heap.equalWithin at heq
      dsimp only at heq
      rw [if_pos rfl] at heq
      exact ih hxy heq

/-! ## Equality -/

/-- Two values are found to be equal when they are bisimilar, and only then. -/
theorem equal?_iff (hplain : h.AllOf h.Plain) (hlawful : ∀ i, (h.map i).Lawful)
    (ha : a.Of h.Plain) (b : Value) :
    ∃ same, h.equal? a b = some same ∧ (same = true ↔ h.Bisimilar a b) := by
  have hends : h.AllOf h.FunctionEnds :=
    ⟨fun i v hv => (hplain.array i v hv).mono fun _ => Plain.functionEnds,
      fun i e he => (hplain.map i e he).mono fun _ => Plain.functionEnds⟩
  obtain ⟨same, hsame⟩ := equal?_ends hends (ha.mono fun _ => Plain.functionEnds) b
  refine ⟨same, hsame, ?_⟩
  obtain ⟨⟨same', seen⟩, heq, hsame'⟩ := Option.map_eq_some_iff.mp hsame
  cases hsame'
  constructor
  · rintro rfl
    obtain ⟨hg, hab⟩ := equalWithin_true hplain hlawful ha heq
    exact ⟨h.Held seen, hg.bisimulation, hab⟩
  · rintro ⟨R, hR, hab⟩
    exact hR.equalWithin hlawful hab heq

/-- **Equality is bisimilarity**: every comparison ends, and finds two values equal when some
relation that goes for parts goes for the two. So equality is symmetric and transitive. -/
theorem equality_is_bisimilarity (hplain : h.AllOf h.Plain) (hlawful : ∀ i, (h.map i).Lawful)
    (ha : a.Of h.Plain) (hb : b.Of h.Plain) :
    (∃ same, h.equal? a b = some same ∧ (same = true ↔ h.Bisimilar a b)) ∧
      h.equal? b a = h.equal? a b ∧
      ∀ c, h.equal? a b = some true → h.equal? b c = some true → h.equal? a c = some true := by
  have hiff : ∀ {x : Value}, x.Of h.Plain → ∀ y, h.equal? x y = some true ↔ h.Bisimilar x y := by
    intro x hx y
    obtain ⟨same, hsame, hxy⟩ := equal?_iff hplain hlawful hx y
    rw [hsame, Option.some_inj]
    exact hxy
  refine ⟨equal?_iff hplain hlawful ha b, ?_, fun c hab hbc => ?_⟩
  · obtain ⟨same, hab, hsame⟩ := equal?_iff hplain hlawful ha b
    obtain ⟨same', hba, hsame'⟩ := equal?_iff hplain hlawful hb a
    rw [hab, hba, Option.some_inj, Bool.eq_iff_iff, hsame, hsame']
    exact ⟨Bisimilar.symm, Bisimilar.symm⟩
  · exact (hiff ha c).mpr (((hiff ha b).mp hab).trans hlawful ((hiff hb c).mp hbc))

/-- Two arrays that contain themselves, and maps that do so through a bound method. Their keys
come in different orders, and the functions in them are made of the same code. -/
def twins : Heap where
  arrays := #[#[.bool true, .array 0, .map 0], #[.bool true, .array 1, .map 1]]
  maps := #[.ofList [("me", .boundMethod (.map 0) "keys"), ("f", .function 0)],
    .ofList [("f", .function 1), ("me", .boundMethod (.map 1) "keys")]]
  chunks := #[{ code := #[0x62], constants := #[.string "s"], lines := #[1] }]
  templates := #[{ name := "f", chunk := 0 }, { name := "f", chunk := 0 }]

theorem twins_plain (i : TemplateId) (hi : i < twins.templates.size) : twins.Plain i := by
  have hconstants : ∀ v ∈ (twins.chunk (twins.template i).chunk).constants, v = .string "s" := by
    match i, hi with
    | 0, _ | 1, _ => simp [twins, chunk, template]
  refine .of_constants hi (fun v hv => ?_) fun j hj => ?_
  · rw [hconstants v hv]
    trivial
  · cases hconstants _ hj

theorem twins_lawful (i : MapId) : (twins.map i).Lawful := by
  match i with
  | 0 | 1 => exact OrderedMap.lawful_ofList _
  | i + 2 => exact OrderedMap.lawful_empty

theorem twins_allOf : twins.AllOf twins.Plain where
  array i v hv := by
    rcases i with _ | _ | i
    iterate 2
      simp only [twins, array, Array.getD_eq_getD_getElem?, List.getElem?_toArray,
        List.getElem?_cons_zero, List.getElem?_cons_succ, Option.getD_some, List.mem_toArray,
        List.mem_cons, List.not_mem_nil, or_false] at hv
      rcases hv with rfl | rfl | rfl <;> trivial
    · cases Array.not_mem_empty v hv
  map i := by
    rcases i with _ | _ | i
    · refine OrderedMap.all_ofList fun e he => ?_
      simp only [List.mem_cons, List.not_mem_nil, or_false] at he
      rcases he with rfl | rfl
      · trivial
      · exact twins_plain 0 (by decide)
    · refine OrderedMap.all_ofList fun e he => ?_
      simp only [List.mem_cons, List.not_mem_nil, or_false] at he
      rcases he with rfl | rfl
      · exact twins_plain 1 (by decide)
      · trivial
    · exact OrderedMap.all_empty

theorem twins_equal : twins.AllOf twins.Plain ∧ (∀ i, (twins.map i).Lawful) ∧
    Value.Of twins.Plain (.array 0) ∧ Value.Of twins.Plain (.array 1) ∧
    twins.equal? (.array 0) (.array 1) = some true ∧ twins.Bisimilar (.array 0) (.array 1) ∧
    twins.equal? (.array 1) (.array 0) = some true := by
  have heq : twins.equal? (.array 0) (.array 1) = some true := by decide +kernel
  obtain ⟨⟨same, hsame, hiff⟩, hsymm, -⟩ := equality_is_bisimilarity (a := .array 0) (b := .array 1)
    twins_allOf twins_lawful trivial trivial
  obtain rfl : true = same := Option.some.inj (heq.symm.trans hsame)
  exact ⟨twins_allOf, twins_lawful, trivial, trivial, heq, hiff.mp rfl, hsymm.trans heq⟩

end Heap

end TaskVm
