import TaskVm.Proofs.Layers

/-!
# Names in paths

The text of a path and the list of its components tell the same. What counts is which names the
components give, one after the other: blank components and dots are there on the text only. So it
is said here what joining a name to a path and going to the path above do to names. A path above is
besides the beginning of the text, which is why it begins where the path does and is not too long
if the path is not.
-/

namespace TaskVm.Path

variable {path above a b c name : String} {cs before : List String}

/-! ## Components -/

/-- A text is cut at the slash that comes first. -/
theorem cut?_slash {x rest : List Char} (hx : '/' ∉ x) :
    Text.cut? ['/'] (x ++ '/' :: rest) = some (x, rest) := by
  induction x with
  | nil =>
    rw [List.nil_append, Text.cut?_cons]
    rfl
  | cons d x ih =>
    obtain ⟨hd, hx⟩ := not_or.mp (mt List.mem_cons.mpr hx)
    have hstart : Text.dropStart? ['/'] (d :: (x ++ '/' :: rest)) = none := if_neg hd
    rw [List.cons_append, Text.cut?_cons, hstart, ih hx]
    rfl

theorem splitAtMost_intercalate : ∀ {xs : List (List Char)} {fuel : Nat}, xs ≠ [] →
    (∀ x ∈ xs, '/' ∉ x) → (['/'].intercalate xs).length ≤ fuel →
    Text.splitAtMost ['/'] fuel (['/'].intercalate xs) = xs
  | [], _, hne, _, _ => absurd rfl hne
  | [x], fuel, _, hxs, _ => by
    have hx : ¬ ['/'] <:+: x := by
      rw [List.singleton_infix_iff]
      exact hxs x List.mem_cons_self
    rw [List.intercalate_singleton]
    cases fuel with
    | zero => rfl
    | succ fuel =>
      unfold Text.splitAtMost
      rw [Text.cut?_eq_none.mpr hx]
  | x :: y :: xs, fuel, _, hxs, hfuel => by
    obtain ⟨hx, hrest⟩ := List.forall_mem_cons.mp hxs
    rw [List.intercalate_cons_cons, List.append_assoc, List.singleton_append] at hfuel ⊢
    cases fuel with
    | zero => simp at hfuel
    | succ fuel =>
      unfold Text.splitAtMost
      simp only [cut?_slash hx]
      rw [splitAtMost_intercalate (List.cons_ne_nil y xs) hrest]
      rw [List.length_append, List.length_cons] at hfuel
      omega

theorem not_slash_of_mem (h : c ∈ components path) : '/' ∉ c.toList := by
  have hsep : "/" ≠ "" := by decide
  have hpart := (Text.split_spec path hsep).1 c h
  rwa [← List.singleton_infix_iff]

theorem joinWith_components (path : String) : Text.joinWith "/" (components path) = path :=
  Text.joinWith_split path "/"

/-- Components without slashes are those of their text. -/
theorem components_joinWith (hne : cs ≠ []) (hcs : ∀ c ∈ cs, '/' ∉ c.toList) :
    components (Text.joinWith "/" cs) = cs := by
  have hmap : (components (Text.joinWith "/" cs)).map String.toList = cs.map String.toList := by
    rw [components, Text.toList_split (by decide), Text.joinWith, String.toList_intercalate]
    refine splitAtMost_intercalate (by simpa using hne) ?_ (Nat.le_refl _)
    intro x hx
    obtain ⟨c, hc, rfl⟩ := List.mem_map.mp hx
    exact hcs c hc
  exact List.map_injective_iff.mpr (fun _ _ => String.toList_inj.mp) hmap

theorem toList_joinWith_append {xs ys : List String} (hxs : xs ≠ []) (hys : ys ≠ []) :
    (Text.joinWith "/" (xs ++ ys)).toList =
      (Text.joinWith "/" xs).toList ++ '/' :: (Text.joinWith "/" ys).toList := by
  simp only [Text.joinWith, String.toList_intercalate, List.map_append]
  rw [intercalate_append _ (by simpa using hxs) (by simpa using hys), List.append_assoc]
  rfl

theorem components_ne_nil (path : String) : components path ≠ [] := by
  intro hnil
  have hpath := joinWith_components path
  rw [hnil] at hpath
  subst hpath
  cases hnil

theorem components_append_slash (a b : String) :
    components (a ++ "/" ++ b) = components a ++ components b := by
  have htext : a ++ "/" ++ b = Text.joinWith "/" (components a ++ components b) := by
    rw [← String.toList_inj, toList_joinWith_append (components_ne_nil a) (components_ne_nil b),
      joinWith_components, joinWith_components, String.toList_append, String.toList_append,
      List.append_assoc]
    rfl
  rw [htext, components_joinWith]
  · exact List.append_ne_nil_of_left_ne_nil (components_ne_nil a) _
  · intro c hc
    rcases List.mem_append.mp hc with hc | hc <;> exact not_slash_of_mem hc

/-- The components in front are those of the text in front. -/
theorem components_front {front back : List String} (h : components path = front ++ back)
    (hfront : front ≠ []) : components (Text.joinWith "/" front) = front := by
  refine components_joinWith hfront fun c hc => ?_
  have hmem : c ∈ components path := h ▸ List.mem_append_left back hc
  exact not_slash_of_mem hmem

theorem components_of_not_slash (h : '/' ∉ path.toList) : components path = [path] := by
  have hone := components_joinWith (List.cons_ne_nil path []) (by simpa using h)
  rwa [Text.joinWith, String.intercalate_singleton] at hone

/-! ## Names -/

/-- The components that name something. -/
def named (cs : List String) : List String := cs.filter fun c => !namesNothing c

theorem named_append (cs cs' : List String) : named (cs ++ cs') = named cs ++ named cs' :=
  List.filter_append ..

theorem named_blank (hc : namesNothing c = true) (cs : List String) : named (c :: cs) = named cs :=
  List.filter_cons_of_neg (by simp [hc])

theorem named_name (hc : namesNothing c = false) (cs : List String) :
    named (c :: cs) = c :: named cs :=
  List.filter_cons_of_pos (by simp [hc])

/-- A name that a directory may have for something in it. -/
structure IsName (c : String) : Prop where
  named : namesNothing c = false
  /-- This one names the directory above. -/
  ne_above : c ≠ ".."
  no_slash : '/' ∉ c.toList
  no_null : '\x00' ∉ c.toList
  short : c.utf8ByteSize ≤ maxComponent

instance (c : String) : Decidable (IsName c) :=
  decidable_of_iff (namesNothing c = false ∧ c ≠ ".." ∧ '/' ∉ c.toList ∧ '\x00' ∉ c.toList ∧
      c.utf8ByteSize ≤ maxComponent)
    ⟨fun h => ⟨h.1, h.2.1, h.2.2.1, h.2.2.2.1, h.2.2.2.2⟩,
      fun h => ⟨h.named, h.ne_above, h.no_slash, h.no_null, h.short⟩⟩

theorem names_append_slash (a b : String) : names (a ++ "/" ++ b) = names a ++ names b :=
  (congrArg named (components_append_slash a b)).trans (named_append _ _)

theorem mem_intercalate {α : Type} {x : α} {sep : List α} : ∀ {xs : List (List α)},
    x ∈ sep.intercalate xs → x ∈ sep ∨ ∃ l ∈ xs, x ∈ l
  | [], hx => nomatch hx
  | [l], hx => by
    rw [List.intercalate_singleton] at hx
    exact .inr ⟨l, List.mem_cons_self, hx⟩
  | l :: l' :: xs, hx => by
    rw [List.intercalate_cons_cons, List.mem_append, List.mem_append] at hx
    rcases hx with (hx | hx) | hx
    · exact .inr ⟨l, List.mem_cons_self, hx⟩
    · exact .inl hx
    · rcases mem_intercalate hx with hx | ⟨k, hk, hx⟩
      · exact .inl hx
      · exact .inr ⟨k, List.mem_cons_of_mem l hk, hx⟩

/-- A character that is neither slash nor dot is in a name. -/
theorem exists_name_of_mem {x : Char} (hx : x ∈ path.toList) (hslash : x ≠ '/') (hdot : x ≠ '.') :
    ∃ c ∈ names path, x ∈ c.toList := by
  rw [← joinWith_components path, Text.joinWith, String.toList_intercalate] at hx
  rcases mem_intercalate hx with hx | ⟨l, hl, hx⟩
  · exact absurd (List.mem_singleton.mp hx) hslash
  · obtain ⟨c, hc, rfl⟩ := List.mem_map.mp hl
    refine ⟨c, List.mem_filter.mpr ⟨hc, ?_⟩, hx⟩
    rw [Bool.not_eq_true', namesNothing, Bool.or_eq_false_iff, beq_eq_false_iff_ne,
      beq_eq_false_iff_ne]
    constructor
    · rintro rfl
      cases hx
    · rintro rfl
      exact hdot (List.mem_singleton.mp hx)

/-- A name that is joined to a path comes last. -/
theorem components_join (path : String) (hname : IsName name) :
    ∃ front, components (join path name) = front ++ [name] ∧ named front = names path := by
  have hone := components_of_not_slash hname.no_slash
  unfold join
  split
  · rename_i hend
    rcases Bool.or_eq_true_iff.mp hend with hempty | hslash
    · rw [String.isEmpty_iff.mp hempty, String.empty_append]
      exact ⟨[], hone, by decide⟩
    · -- The slash at the end is the one that joins.
      obtain ⟨front, hfront⟩ := List.getLast?_eq_some_iff.mp (beq_iff_eq.mp hslash)
      have hpath : path = String.ofList front ++ "/" ++ "" := by
        rw [← String.toList_inj, hfront]
        simp
      refine ⟨components (String.ofList front), ?_, ?_⟩
      · rw [hpath, String.append_empty, components_append_slash, hone]
      · rw [hpath, names_append_slash]
        exact (List.append_nil _).symm
  · exact ⟨components path, by rw [components_append_slash, hone], rfl⟩

theorem names_join (path : String) (hname : IsName name) :
    names (join path name) = names path ++ [name] := by
  obtain ⟨front, hcomponents, hfront⟩ := components_join path hname
  rw [← hfront]
  refine (congrArg named hcomponents).trans ((named_append _ _).trans ?_)
  rw [named_name hname.named]
  rfl

theorem isAbsolute_join (path : String) (hname : IsName name) :
    isAbsolute (join path name) = isAbsolute path := by
  by_cases hpath : path = ""
  · subst hpath
    have hhead : name.toList.head? ≠ some '/' := fun h =>
      hname.no_slash (List.mem_of_head? h)
    have hjoin : join "" name = name := String.empty_append
    rw [hjoin]
    exact beq_eq_false_iff_ne.mpr hhead
  · have hne : path.toList ≠ [] := fun h => hpath (String.toList_eq_nil_iff.mp h)
    have hhead : ∀ rest : String, isAbsolute (path ++ rest) = isAbsolute path := by
      intro rest
      rw [isAbsolute, String.toList_append, List.head?_append_of_ne_nil _ hne]
      rfl
    unfold join
    split
    · exact hhead name
    · rw [String.append_assoc]
      exact hhead _

/-! ## The path above -/

/-- What is cut off names nothing. -/
theorem named_trimEnd (cs : List String) : named (trimEnd cs) = named cs := by
  unfold named
  fun_induction trimEnd cs with
  | case1 => rfl
  | case2 c h =>
    rw [beq_iff_eq.mp h]
    rfl
  | case3 c h => rfl
  | case4 c before hne h ih =>
    rw [ih, List.filter_cons_of_neg]
    rw [h]
    exact Bool.false_ne_true
  | case5 c before hne h => rfl

theorem names_eq_reverse (path : String) :
    names path = (named (components path).reverse).reverse := by
  rw [named, List.filter_reverse, List.reverse_reverse]
  rfl

/-- Without a path above there are no names. -/
theorem names_of_parent?_eq_none (h : parent? path = none) : names path = [] := by
  unfold parent? at h
  split at h
  · rename_i hlast
    rw [names_eq_reverse, ← named_trimEnd, hlast]
    rfl
  · split at h <;> cases h

/-- The path above has the components in front, and behind them there is one name at most. -/
theorem exists_front (h : parent? path = some above) : ∃ front back : List String,
    components path = front ++ back ∧ back ≠ [] ∧ front ≠ [""] ∧
      (names path = named front ∨ ∃ c, names path = named front ++ [c]) ∧
      above = if front = [] then if isAbsolute path then "/" else ""
        else Text.joinWith "/" front := by
  unfold parent? at h
  split at h
  · cases h
  · rename_i c before hlast
    obtain ⟨blank, hblank⟩ := trimEnd_suffix (components path).reverse
    obtain ⟨blank', hblank'⟩ := trimEnd_suffix before
    refine ⟨(trimEnd before).reverse, (blank ++ c :: blank').reverse, ?_, by simp, ?_, ?_, ?_⟩
    · rw [← List.reverse_append, List.append_assoc, List.cons_append, hblank', ← hlast, hblank,
        List.reverse_reverse]
    · intro hempty
      exact ne_empty_of_trimEnd (List.reverse_eq_iff.mp hempty) rfl
    · have hfront : named (trimEnd before).reverse = (named before).reverse := by
        rw [← named_trimEnd before]
        exact List.filter_reverse
      rw [names_eq_reverse, ← named_trimEnd, hlast, hfront]
      cases hc : namesNothing c with
      | true => exact .inl (congrArg _ (named_blank hc before))
      | false => exact .inr ⟨c, by rw [named_name hc, List.reverse_cons]⟩
    · simp only [List.reverse_eq_nil_iff]
      split at h
      · rename_i hnothing
        rw [if_pos hnothing]
        exact (Option.some.inj h).symm
      · rename_i hrest
        rw [if_neg hrest]
        exact (Option.some.inj h).symm

/-- **The path above has all names but the last one.** Where only a dot is cut off it has all. -/
theorem names_parent? (h : parent? path = some above) :
    names path = names above ∨ ∃ c, names path = names above ++ [c] := by
  obtain ⟨front, back, hsplit, -, -, hnames, rfl⟩ := exists_front h
  have habove : names (if front = [] then if isAbsolute path then "/" else ""
      else Text.joinWith "/" front) = named front := by
    split
    · rename_i hfront
      rw [hfront]
      split <;> decide
    · rename_i hfront
      exact congrArg named (components_front hsplit hfront)
  rw [habove]
  exact hnames

/-- **The path above is the beginning of the text, and it begins at the root if the path does.** -/
theorem text_parent? (h : parent? path = some above) :
    above.toList <+: path.toList ∧ isAbsolute above = isAbsolute path := by
  obtain ⟨front, back, hsplit, hback, hempty, -, rfl⟩ := exists_front h
  split
  · -- Nothing is left but the slash, if there is one.
    cases habsolute : isAbsolute path with
    | false => exact ⟨List.nil_prefix, rfl⟩
    | true =>
      rw [isAbsolute, beq_iff_eq] at habsolute
      obtain ⟨rest, hrest⟩ := List.head?_eq_some_iff.mp habsolute
      rw [hrest]
      exact ⟨List.prefix_append ['/'] rest, rfl⟩
  · rename_i hfront
    have htext : (Text.joinWith "/" front).toList ++ '/' :: (Text.joinWith "/" back).toList =
        path.toList := by
      rw [← toList_joinWith_append hfront hback, ← hsplit, joinWith_components]
    have hne : (Text.joinWith "/" front).toList ≠ [] := by
      intro hnil
      have hparts := components_front hsplit hfront
      rw [String.toList_eq_nil_iff.mp hnil] at hparts
      exact hempty hparts.symm
    refine ⟨⟨_, htext⟩, ?_⟩
    rw [isAbsolute, isAbsolute, ← htext, List.head?_append_of_ne_nil _ hne]

/-- Where a name fits behind a path, it fits behind the path above. -/
theorem size_join_le (hbegins : above.toList <+: path.toList) (hlt : above.length < path.length)
    (name : String) : (join above name).utf8ByteSize ≤ (join path name).utf8ByteSize := by
  obtain ⟨rest, hrest⟩ := hbegins
  have hpath : path = above ++ String.ofList rest := by
    rw [← String.toList_inj, String.toList_append, String.toList_ofList, hrest]
  have hne : String.ofList rest ≠ "" := by
    intro hnil
    rw [hpath, hnil, String.append_empty] at hlt
    exact Nat.lt_irrefl _ hlt
  have hpos : 0 < (String.ofList rest).utf8ByteSize := by
    rw [Nat.pos_iff_ne_zero]
    exact fun hzero => hne (String.utf8ByteSize_eq_zero_iff.mp hzero)
  have hsize : path.utf8ByteSize = above.utf8ByteSize + (String.ofList rest).utf8ByteSize := by
    rw [hpath, String.utf8ByteSize_append]
  have hslash : "/".utf8ByteSize = 1 := rfl
  unfold join
  split <;> split <;> simp only [String.utf8ByteSize_append, hslash] <;> omega

end TaskVm.Path
