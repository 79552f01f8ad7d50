import TaskVm.Heap.Render
import TaskVm.Proofs.Conversion

/-!
# Texts are texts of trees

The text of a value follows its collections wherever they lead, and they may lead back. What is
printed is nevertheless the text of a finite tree. The tree is what a value unfolds to when each
collection is followed by its parts, wherever it occurs, unless the occurrence is inside the same
collection. There, and nowhere else, the tree is cut.

That printing ends needs two measures at once. On the way into a collection there is one less to
come, and on the way to the receiver of a bound method, which the debug text shows, there is one
method less before the next collection.
-/

namespace TaskVm

/-- What a value unfolds to. -/
inductive ValueTree where
  /-- A value of which no parts are shown. -/
  | leaf (v : Value)
  | array (items : List ValueTree)
  | map (entries : List (String × ValueTree))
  /-- A bound method of which the receiver is shown. -/
  | method (receiver : ValueTree) (name : String)
  /-- An array inside itself. -/
  | arrayAgain
  /-- A map inside itself. -/
  | mapAgain

namespace ValueTree

mutual

/-- The text of a tree. -/
def text (h : Heap) (style : TextStyle) : ValueTree → String
  | leaf v => h.leafText style v
  | array items => "[" ++ ", ".intercalate (texts h style.inner items) ++ "]"
  | map entries => "\x7b" ++ ", ".intercalate (entryTexts h style entries) ++ "\x7d"
  | method receiver name => "BoundMethod(" ++ receiver.text h .debug ++ "." ++ name ++ ")"
  | arrayAgain => "[...]"
  | mapAgain => "\x7b...\x7d"

/-- The texts of trees. -/
def texts (h : Heap) (style : TextStyle) : List ValueTree → List String
  | [] => []
  | t :: ts => t.text h style :: texts h style ts

/-- The texts of the entries of a map. -/
def entryTexts (h : Heap) (style : TextStyle) : List (String × ValueTree) → List String
  | [] => []
  | (key, t) :: es =>
    (Heap.keyText style key ++ ": " ++ t.text h style.inner) :: entryTexts h style es

end

theorem texts_eq {h : Heap} {style : TextStyle} {f : Value → String} {vs : List Value}
    {ts : List ValueTree} (hts : List.Forall₂ (fun v t => f v = t.text h style) vs ts) :
    texts h style ts = vs.map f := by
  induction hts with
  | nil => rfl
  | cons ht _ ih => rw [texts, List.map_cons, ht, ih]

theorem entryTexts_eq {h : Heap} {style : TextStyle} {f : Value → String}
    {es : List (String × Value)} {ts : List (String × ValueTree)}
    (hts : List.Forall₂ (fun e t => t.1 = e.1 ∧ f e.2 = t.2.text h style.inner) es ts) :
    entryTexts h style ts = es.map fun e => Heap.keyText style e.1 ++ ": " ++ f e.2 := by
  induction hts with
  | nil => rfl
  | @cons e t es ts ht _ ih =>
    obtain ⟨key, t⟩ := t
    obtain ⟨rfl, ht⟩ := ht
    rw [entryTexts, List.map_cons, ht, ih]

end ValueTree

/-- No parts of a value are shown. -/
def Value.Closed (style : TextStyle) : Value → Prop
  | .array _ | .map _ => False
  | .boundMethod _ _ => style ≠ .debug
  | _ => True

namespace Heap

variable {h : Heap} {style : TextStyle} {around : List Value} {v w : Value} {limit : Nat}

/-- What a value unfolds to that has collections around it: one of these is not unfolded again, and
every other array and map is, with itself around its parts. -/
inductive Unfolds (h : Heap) : TextStyle → List Value → Value → ValueTree → Prop where
  | leaf {style : TextStyle} {around : List Value} {v : Value} (hv : v.Closed style) :
      h.Unfolds style around v (.leaf v)
  | array {style : TextStyle} {around : List Value} {i : ArrayId} {ts : List ValueTree}
      (hout : .array i ∉ around) (hlength : ts.length = (h.array i).toList.length)
      (hparts : ∀ (k : Nat) v t, (h.array i).toList[k]? = some v → ts[k]? = some t →
        h.Unfolds style.inner (.array i :: around) v t) :
      h.Unfolds style around (.array i) (.array ts)
  | map {style : TextStyle} {around : List Value} {i : MapId} {ts : List (String × ValueTree)}
      (hout : .map i ∉ around) (hkeys : ts.map (·.1) = (h.map i).keys)
      (hparts : ∀ (k : Nat) e t, (h.map i).toList[k]? = some e → ts[k]? = some t →
        h.Unfolds style.inner (.map i :: around) e.2 t.2) :
      h.Unfolds style around (.map i) (.map ts)
  | method {around : List Value} {v : Value} {name : String} {t : ValueTree}
      (ht : h.Unfolds .debug around v t) :
      h.Unfolds .debug around (.boundMethod v name) (.method t name)
  | arrayAgain {style : TextStyle} {around : List Value} {i : ArrayId} (hin : .array i ∈ around) :
      h.Unfolds style around (.array i) .arrayAgain
  | mapAgain {style : TextStyle} {around : List Value} {i : MapId} (hin : .map i ∈ around) :
      h.Unfolds style around (.map i) .mapAgain

/-- Two lists without a difference at any place. -/
theorem eq_of_places {α β : Type} {as : List α} {bs bs' : List β} (hbs : bs.length = as.length)
    (hbs' : bs'.length = as.length)
    (hsame : ∀ (k : Nat) a b b', as[k]? = some a → bs[k]? = some b → bs'[k]? = some b' → b = b') :
    bs = bs' := by
  refine List.ext_getElem (hbs.trans hbs'.symm) fun k hk hk' => ?_
  exact hsame k _ _ _ (List.getElem?_eq_getElem (hbs ▸ hk)) (List.getElem?_eq_getElem hk)
    (List.getElem?_eq_getElem hk')

/-- What is at one place in the entries of two maps with the same keys has the same key. -/
theorem key_at {α : Type} {m : OrderedMap Value} {es : List (String × α)}
    (hkeys : es.map (·.1) = m.keys) {k : Nat} {e : String × Value} {e' : String × α}
    (he : m.toList[k]? = some e) (he' : es[k]? = some e') : e'.1 = e.1 := by
  have hsame := congrArg (·[k]?) hkeys
  simpa [OrderedMap.keys, he, he'] using hsame

/-- **A value unfolds to one tree only.** -/
theorem Unfolds.unique {t : ValueTree} (ht : h.Unfolds style around v t) :
    ∀ {t' : ValueTree}, h.Unfolds style around v t' → t = t' := by
  -- By induction on the first tree. The value and the collections around it decide which
  -- constructor made the second one.
  induction ht with
  | leaf hv =>
    intro t' ht'
    cases ht' with
    | leaf => rfl
    | method => exact absurd rfl hv
    | array | map | arrayAgain | mapAgain => exact hv.elim
  | array hout hlength _ ih =>
    intro t' ht'
    cases ht' with
    | leaf hv => exact hv.elim
    | arrayAgain hin => exact absurd hin hout
    | array _ hlength' hparts' =>
      exact congrArg ValueTree.array (eq_of_places hlength hlength' fun k v t t' hv ht ht' =>
        ih k v t hv ht (hparts' k v t' hv ht'))
  | map hout hkeys _ ih =>
    intro t' ht'
    cases ht' with
    | leaf hv => exact hv.elim
    | mapAgain hin => exact absurd hin hout
    | map _ hkeys' hparts' =>
      refine congrArg ValueTree.map (eq_of_places (length_of_keys hkeys) (length_of_keys hkeys')
        fun k e t t' he ht ht' => Prod.ext ?_ (ih k e t he ht (hparts' k e t' he ht')))
      rw [key_at hkeys he ht, key_at hkeys' he ht']
  | method _ ih =>
    intro t' ht'
    cases ht' with
    | leaf hv => exact absurd rfl hv
    | method ht' => rw [ih ht']
  | arrayAgain hin =>
    intro t' ht'
    cases ht' with
    | leaf hv => exact hv.elim
    | array hout => exact absurd hin hout
    | arrayAgain => rfl
  | mapAgain hin =>
    intro t' ht'
    cases ht' with
    | leaf hv => exact hv.elim
    | map hout => exact absurd hin hout
    | mapAgain => rfl

/-! ## Printing ends -/

/-- How deep printing can go that has a value before it and collections around it. -/
def toPrint (h : Heap) (around : List Value) : Value → Nat
  | .array _ | .map _ => h.unopened around * (h.deepest + 2)
  | .boundMethod v _ => h.unopened around * (h.deepest + 2) + (v.depth + 1)
  | _ => 0

theorem toPrint_le (h : Heap) (around : List Value) (v : Value) :
    h.toPrint around v ≤ h.unopened around * (h.deepest + 2) + v.depth := by
  cases v <;> simp [toPrint, Value.depth]

/-- Inside a collection there is less to come. -/
theorem PartOf.toPrint_lt (hw : h.PartOf w v) (hout : v ∉ around) :
    h.toPrint (v :: around) w < h.toPrint around v := by
  have hless := hw.unopened_lt hout
  have hmul := Nat.mul_le_mul_right (h.deepest + 2) hless
  rw [Nat.succ_mul] at hmul
  refine Nat.lt_of_le_of_lt (h.toPrint_le (v :: around) w) ?_
  cases hw with
  | element hw =>
    have hdepth := depth_le_deepest_of_array (Array.mem_toList_iff.mp hw)
    simp only [toPrint]
    omega
  | entry he =>
    have hdepth := depth_le_deepest_of_map (Array.mem_toList_iff.mp he)
    simp only [toPrint]
    omega

/-- So there is at a receiver. -/
theorem toPrint_receiver (h : Heap) (around : List Value) (v : Value) (name : String) :
    h.toPrint around v < h.toPrint around (.boundMethod v name) := by
  refine Nat.lt_of_le_of_lt (h.toPrint_le around v) ?_
  simp only [toPrint]
  omega

theorem toPrint_lt_textLimit (h : Heap) (v : Value) : h.toPrint [] v < h.textLimit v := by
  have hmul := Nat.mul_le_mul_right (h.deepest + 2) (h.unopened_le [])
  have hroom : ∀ n, h.unopened [] * (h.deepest + 2) + n <
      (h.collections + 2) * (h.deepest + n + 2) := by
    intro n
    have hsum : (h.collections + 2) * (h.deepest + n + 2) =
        h.collections * (h.deepest + 2) + (h.collections * n + 2 * (h.deepest + 2) + 2 * n) := by
      ring
    omega
  cases v with
  | array | map => exact hroom 0
  | boundMethod receiver => exact hroom (receiver.depth + 1)
  | _ => exact Nat.one_pos

/-- Print things one after the other. -/
def printEach {α : Type} (print : List Value → α → Option (String × List Value)) :
    List Value → List α → Option (List String × List Value)
  | opened, [] => some ([], opened)
  | opened, a :: as =>
    match print opened a with
    | none => none
    | some (text, opened) => (printEach print opened as).map fun r => (text :: r.1, r.2)

/-- The text of a value, with the list of open collections that printing changes on its way. It
does not go deeper than a limit, and has no text then. -/
def print (h : Heap) : (limit : Nat) → TextStyle → List Value → Value →
    Option (String × List Value)
  | 0, _, _, _ => none
  | limit + 1, style, opened, v =>
    match v with
    | .array i =>
      if opened.contains v then some ("[...]", opened)
      else
        (printEach (h.print limit style.inner) (v :: opened) (h.array i).toList).map fun r =>
          ("[" ++ ", ".intercalate r.1 ++ "]", r.2.tail)
    | .map i =>
      if opened.contains v then some ("\x7b...\x7d", opened)
      else
        (printEach (fun opened e => (h.print limit style.inner opened e.2).map fun r =>
          (keyText style e.1 ++ ": " ++ r.1, r.2)) (v :: opened) (h.map i).toList).map fun r =>
            ("\x7b" ++ ", ".intercalate r.1 ++ "\x7d", r.2.tail)
    | .boundMethod receiver method =>
      if style = .debug then
        (h.print limit .debug opened receiver).map fun r =>
          ("BoundMethod(" ++ r.1 ++ "." ++ method ++ ")", r.2)
      else some (h.leafText style v, opened)
    | v => some (h.leafText style v, opened)

theorem printEach_eq {α : Type} {print : List Value → α → Option (String × List Value)}
    {f : α → String} : ∀ {as : List α},
    (∀ a ∈ as, print around a = some (f a, around)) →
    printEach print around as = some (as.map f, around)
  | [], _ => rfl
  | a :: as, hall => by
    have hrest := printEach_eq fun a ha => hall a (List.mem_cons_of_mem _ ha)
    rw [printEach, hall a List.mem_cons_self]
    dsimp only
    rw [hrest]
    rfl

/-- **Printing ends, and leaves the list of open collections as it was.** Within any two limits
beyond what there is to print the text is the same. -/
theorem print_eq : ∀ {limit limit' : Nat} {style : TextStyle} {opened : List Value} {v : Value},
    h.toPrint opened v < limit → h.toPrint opened v < limit' →
    h.print limit style opened v = some (h.textWithin limit' style opened v, opened) := by
  intro limit
  induction limit with
  | zero =>
    intro _ _ _ _ hlimit
    exact absurd hlimit (Nat.not_lt_zero _)
  | succ limit ih =>
    intro limit' style opened v hlimit hlimit'
    obtain ⟨limit', rfl⟩ : ∃ n, limit' = n + 1 := ⟨limit' - 1, by omega⟩
    -- Printing a part puts the collection on the list of opened ones, and leaves the list as it
    -- was.
    have hinside : ∀ {w : Value}, h.PartOf w v → v ∉ opened →
        h.print limit style.inner (v :: opened) w =
          some (h.textWithin limit' style.inner (v :: opened) w, v :: opened) := by
      intro w hw hout
      have hless := hw.toPrint_lt hout
      exact ih (by omega) (by omega)
    cases v with
    | array i =>
      unfold print textWithin
      dsimp only
      by_cases hin : opened.contains (.array i) = true
      · rw [if_pos hin, if_pos hin]
      · rw [if_neg hin, if_neg hin]
        rw [printEach_eq fun w hw => hinside (.element hw) (by simpa using hin)]
        rfl
    | map i =>
      unfold print textWithin
      dsimp only
      by_cases hin : opened.contains (.map i) = true
      · rw [if_pos hin, if_pos hin]
      · rw [if_neg hin, if_neg hin]
        rw [printEach_eq (f := fun e : String × Value => keyText style e.1 ++ ": " ++
          h.textWithin limit' style.inner (.map i :: opened) e.2) fun e he => by
            rw [hinside (.entry he) (by simpa using hin)]
            rfl]
        rfl
    | boundMethod receiver name =>
      unfold print textWithin
      dsimp only
      split
      · have hless := h.toPrint_receiver opened receiver name
        have hroom : h.toPrint opened receiver < limit' := by omega
        rw [ih (by omega) hroom]
        rfl
      · rfl
    | _ => rfl

/-! ## The tree that is printed -/

/-- **A value unfolds to a tree, and its text is the text of the tree.** -/
theorem exists_unfolds : ∀ {limit : Nat} {style : TextStyle} {around : List Value} {v : Value},
    h.toPrint around v < limit →
    ∃ t, h.Unfolds style around v t ∧ h.textWithin limit style around v = t.text h style := by
  intro limit
  -- The limit bounds the parts still to print, which every step inside strictly lowers, so the
  -- empty limit is never reached.
  induction limit with
  | zero =>
    intro _ _ _ hlimit
    exact absurd hlimit (Nat.not_lt_zero _)
  | succ limit ih =>
    intro style around v hlimit
    have hinside : ∀ {w : Value}, h.PartOf w v → v ∉ around →
        ∃ t, h.Unfolds style.inner (v :: around) w t ∧
          h.textWithin limit style.inner (v :: around) w = t.text h style.inner := by
      intro w hw hout
      have hless := hw.toPrint_lt hout
      exact ih (by omega)
    unfold textWithin
    cases v with
    | array i =>
      dsimp only
      by_cases hin : Value.array i ∈ around
      · rw [if_pos (List.contains_iff_mem.mpr hin)]
        exact ⟨.arrayAgain, .arrayAgain hin, rfl⟩
      · rw [if_neg (fun hc => hin (List.contains_iff_mem.mp hc))]
        obtain ⟨ts, hts⟩ := exists_forall₂ fun w hw => hinside (.element hw) hin
        refine ⟨.array ts, .array hin hts.length_eq.symm fun k w t hw ht =>
          (getElem?_of_forall₂ hts hw ht).1, ?_⟩
        rw [ValueTree.text, ValueTree.texts_eq (hts.imp fun _ _ ht => ht.2)]
    | map i =>
      dsimp only
      by_cases hin : Value.map i ∈ around
      · rw [if_pos (List.contains_iff_mem.mpr hin)]
        exact ⟨.mapAgain, .mapAgain hin, rfl⟩
      · rw [if_neg (fun hc => hin (List.contains_iff_mem.mp hc))]
        have hentry : ∀ e ∈ (h.map i).toList, ∃ t : String × ValueTree, t.1 = e.1 ∧
            h.Unfolds style.inner (.map i :: around) e.2 t.2 ∧
              h.textWithin limit style.inner (.map i :: around) e.2 = t.2.text h style.inner := by
          intro e he
          obtain ⟨t, ht⟩ := hinside (.entry he) hin
          exact ⟨(e.1, t), rfl, ht⟩
        obtain ⟨ts, hts⟩ := exists_forall₂ hentry
        refine ⟨.map ts, .map hin (keys_of_forall₂ (R := fun _ _ => True)
          (hts.imp fun _ _ ht => ⟨ht.1, trivial⟩)) fun k e t he ht =>
            (getElem?_of_forall₂ hts he ht).2.1, ?_⟩
        rw [ValueTree.text, ValueTree.entryTexts_eq (hts.imp fun _ _ ht => ⟨ht.1, ht.2.2⟩)]
    | boundMethod receiver name =>
      dsimp only
      -- Only the debugging style opens the receiver; in the others a method is a leaf.
      by_cases hstyle : style = .debug
      · subst hstyle
        have hless := h.toPrint_receiver around receiver name
        have hroom : h.toPrint around receiver < limit := by omega
        obtain ⟨t, ht, htext⟩ : ∃ t, h.Unfolds .debug around receiver t ∧
          h.textWithin limit .debug around receiver = t.text h .debug := ih hroom
        exact ⟨.method t name, .method ht, by rw [if_pos rfl, htext, ValueTree.text]⟩
      · rw [if_neg hstyle]
        exact ⟨.leaf _, .leaf hstyle, rfl⟩
    | _ => exact ⟨.leaf _, .leaf trivial, rfl⟩

/-- Wherever a value is in an array, it unfolds to the same. -/
theorem Unfolds.elements {i : ArrayId} {ts : List ValueTree}
    (ht : h.Unfolds style around (.array i) (.array ts)) {k l : Nat} {t t' : ValueTree}
    (hk : (h.array i).toList[k]? = some v) (hl : (h.array i).toList[l]? = some v)
    (htk : ts[k]? = some t) (htl : ts[l]? = some t') : t = t' := by
  cases ht with
  | array _ _ hparts => exact (hparts k v t hk htk).unique (hparts l v t' hl htl)

/-- So it does under whatever key it is in a map. -/
theorem Unfolds.entries {i : MapId} {ts : List (String × ValueTree)}
    (ht : h.Unfolds style around (.map i) (.map ts)) {k l : Nat} {key key' : String}
    {t t' : String × ValueTree} (hk : (h.map i).toList[k]? = some (key, v))
    (hl : (h.map i).toList[l]? = some (key', v)) (htk : ts[k]? = some t) (htl : ts[l]? = some t') :
    t.2 = t'.2 := by
  cases ht with
  | map _ _ hparts =>
    exact (hparts k (key, v) t hk htk).unique (hparts l (key', v) t' hl htl)

/-- A text is that of the one tree that a value unfolds to, and printing comes to it within any
limit that is large enough, with nothing open in the end. -/
def Printed (h : Heap) (style : TextStyle) (v : Value) (text : String) : Prop :=
  ∃ t, (∀ t', h.Unfolds style [] v t' ↔ t' = t) ∧ text = t.text h style ∧
    ∀ limit, h.textLimit v ≤ limit → h.print limit style [] v = some (text, [])

theorem printed_textWithin (h : Heap) (style : TextStyle) (v : Value) :
    h.Printed style v (h.textWithin (h.textLimit v) style [] v) := by
  have hroom := h.toPrint_lt_textLimit v
  obtain ⟨t, ht, htext⟩ : ∃ t, h.Unfolds style [] v t ∧
    h.textWithin (h.textLimit v) style [] v = t.text h style := exists_unfolds hroom
  refine ⟨t, fun t' => ⟨fun ht' => ht'.unique ht, ?_⟩, htext, fun limit hlimit => ?_⟩
  · rintro rfl
    exact ht
  · exact print_eq (Nat.lt_of_lt_of_le hroom hlimit) hroom

theorem mapKey_eq_display (h : Heap) (v : Value) : h.mapKey v = h.display v := by
  cases v <;> rfl

/-- **Every text of a value is that of a finite tree**, and printing ends. The tree is cut at an
array or a map exactly where it is inside itself, and so not where the same collection is beside
itself. -/
theorem texts_are_unfolded (h : Heap) (v : Value) :
    h.Printed .display v (h.display v) ∧ h.Printed .debug v (h.debug v) ∧
      h.Printed .display v (h.mapKey v) ∧
    (∀ style around i t, h.Unfolds style around (.array i) t →
      (t = .arrayAgain ↔ .array i ∈ around)) ∧
    (∀ style around i t, h.Unfolds style around (.map i) t →
      (t = .mapAgain ↔ .map i ∈ around)) ∧
    (∀ style around i ts, h.Unfolds style around (.array i) (.array ts) →
      ∀ (k l : Nat) w t t', (h.array i).toList[k]? = some w → (h.array i).toList[l]? = some w →
        ts[k]? = some t → ts[l]? = some t' → t = t') ∧
    (∀ style around i ts, h.Unfolds style around (.map i) (.map ts) →
      ∀ (k l : Nat) key key' w t t', (h.map i).toList[k]? = some (key, w) →
        (h.map i).toList[l]? = some (key', w) → ts[k]? = some t → ts[l]? = some t' →
          t.2 = t'.2) := by
  refine ⟨h.printed_textWithin .display v, h.printed_textWithin .debug v, ?_, ?_, ?_, ?_, ?_⟩
  · rw [mapKey_eq_display]
    exact h.printed_textWithin .display v
  · intro style around i t ht
    cases ht with
    | leaf hv => exact hv.elim
    | array hout => exact ⟨nofun, fun hin => absurd hin hout⟩
    | arrayAgain hin => exact ⟨fun _ => hin, fun _ => rfl⟩
  · intro style around i t ht
    cases ht with
    | leaf hv => exact hv.elim
    | map hout => exact ⟨nofun, fun hin => absurd hin hout⟩
    | mapAgain hin => exact ⟨fun _ => hin, fun _ => rfl⟩
  · intro style around i ts ht k l w t t' hk hl htk htl
    exact ht.elements hk hl htk htl
  · intro style around i ts ht k l key key' w t t' hk hl htk htl
    exact ht.entries hk hl htk htl

/-- An array that is twice in a map, and contains the map through a bound method. -/
def wreath : Heap where
  arrays := #[#[.string "s", .boundMethod (.map 0) "keys"]]
  maps := #[.ofList [("a", .array 0), ("b", .array 0)]]

example : wreath.display (.map 0) =
    "\x7ba: [\"s\", <method keys>], b: [\"s\", <method keys>]\x7d" := by
  decide +kernel

example : wreath.debug (.array 0) = "[String(\"s\"), " ++
    "BoundMethod(\x7b\"a\": [...], \"b\": [...]\x7d.keys)]" := by
  decide +kernel

end Heap

end TaskVm
