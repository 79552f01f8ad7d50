import TaskVm.Proofs.Failures
import Mathlib.Data.List.Infix
import Mathlib.Data.List.Sort

/-!
# Splitting and joining

A text is cut at the first occurrence of a separator, and what comes behind it is cut again. So the
separators that are cut out are those that are found from the left when none may overlap the one
before. They are told here by their places and not by the search: a list of places is right if
there is a separator at each, if they are apart, and if wherever else there is one it overlaps with
one of the list that begins before it. There is one such list only.
-/

namespace TaskVm.Text

variable {sep cs before after : List Char}

/-! ## Occurrences -/

/-- A separator begins at a place of a text. -/
def OccursAt (sep cs : List Char) (place : Nat) : Prop := sep <+: cs.drop place

/-- The places at which a separator is found from the left, without any overlaps. -/
structure FoundFromLeft (sep cs : List Char) (places : List Nat) : Prop where
  found : ∀ place ∈ places, OccursAt sep cs place
  apart : places.Pairwise fun first second => first + sep.length ≤ second
  /-- What is not found overlaps with one that has been found before. -/
  all : ∀ place, OccursAt sep cs place →
    ∃ first ∈ places, first ≤ place ∧ place < first + sep.length

theorem dropStart?_isSome : (dropStart? sep cs).isSome = true ↔ sep <+: cs := by
  rw [Option.isSome_iff_exists]
  exact exists_congr fun rest => dropStart?_eq_some.trans eq_comm

theorem not_prefix_of_dropStart? (h : dropStart? sep cs = none) : ¬ sep <+: cs := by
  rw [← dropStart?_isSome, h]
  exact Bool.false_ne_true

/-- A text is not cut where there is no separator in it. -/
theorem cut?_eq_none : cut? sep cs = none ↔ ¬ sep <:+: cs := by
  induction cs with
  | nil =>
    rw [cut?_nil, List.infix_nil, ← List.isEmpty_iff]
    split <;> simp_all
  | cons c cs ih =>
    rw [cut?_cons, List.infix_cons_iff, not_or]
    cases hstart : dropStart? sep (c :: cs) with
    | some rest =>
      have hstarts : sep <+: c :: cs := dropStart?_isSome.mp (by rw [hstart]; rfl)
      simp [hstarts]
    | none =>
      simp only [Option.map_eq_none_iff, ih, not_prefix_of_dropStart? hstart, not_false_eq_true,
        true_and]

/-- A text is cut at the first occurrence. -/
theorem le_of_occursAt (h : cut? sep cs = some (before, after)) {place : Nat}
    (hplace : OccursAt sep cs place) : before.length ≤ place := by
  induction cs generalizing before place with
  | nil =>
    rw [cut?_nil] at h
    split at h
    · obtain ⟨rfl, -⟩ := Prod.mk.inj (Option.some.inj h)
      exact Nat.zero_le _
    · cases h
  | cons c cs ih =>
    rw [cut?_cons] at h
    cases hstart : dropStart? sep (c :: cs) with
    | some rest =>
      simp only [hstart] at h
      obtain ⟨rfl, -⟩ := Prod.mk.inj (Option.some.inj h)
      exact Nat.zero_le _
    | none =>
      simp only [hstart] at h
      obtain ⟨⟨front, back⟩, hcut, hp⟩ := Option.map_eq_some_iff.mp h
      obtain ⟨rfl, rfl⟩ := Prod.mk.inj hp
      cases place with
      | zero => exact absurd hplace (not_prefix_of_dropStart? hstart)
      | succ place => exact Nat.succ_le_succ (ih hcut hplace)

/-- Nothing is cut off that has a separator in it. -/
theorem not_infix_of_cut? (hsep : sep ≠ []) (h : cut? sep cs = some (before, after)) :
    ¬ sep <:+: before := by
  rintro ⟨front, back, hfront⟩
  have hcs := eq_append_of_cut? h
  have hplace : OccursAt sep cs front.length := by
    refine ⟨back ++ sep ++ after, ?_⟩
    rw [hcs, ← hfront]
    simp
  have hle := le_of_occursAt h hplace
  rw [← hfront] at hle
  simp only [List.length_append] at hle
  have hpos := List.length_pos_iff.mpr hsep
  omega

/-- Where a separator begins behind what has been cut off. -/
theorem occursAt_behind {place : Nat} :
    OccursAt sep (before ++ sep ++ after) (before.length + sep.length + place) ↔
      OccursAt sep after place := by
  unfold OccursAt
  rw [← List.length_append, ← List.drop_drop, List.drop_left]

namespace FoundFromLeft

variable {places : List Nat}

theorem of_absent (h : ¬ sep <:+: cs) : FoundFromLeft sep cs [] where
  found := nofun
  apart := List.Pairwise.nil
  all place hplace := absurd (hplace.isInfix.trans (List.drop_suffix place cs).isInfix) h

/-- The first occurrence comes before those that are found behind it. -/
theorem of_cut? (hsep : sep ≠ []) (h : cut? sep cs = some (before, after))
    (hf : FoundFromLeft sep after places) : FoundFromLeft sep cs
      (before.length :: places.map fun place => before.length + sep.length + place) := by
  have hcs := eq_append_of_cut? h
  have hpos := List.length_pos_iff.mpr hsep
  refine ⟨?_, ?_, fun place hplace => ?_⟩
  · intro place hplace
    rcases List.mem_cons.mp hplace with rfl | hlater
    · rw [hcs, OccursAt, List.append_assoc, List.drop_left]
      exact List.prefix_append sep after
    · obtain ⟨later, hmem, rfl⟩ := List.mem_map.mp hlater
      rw [hcs]
      exact occursAt_behind.mpr (hf.found later hmem)
  · refine List.pairwise_cons.mpr ⟨fun place hlater => ?_, ?_⟩
    · obtain ⟨later, -, rfl⟩ := List.mem_map.mp hlater
      omega
    · exact List.pairwise_map.mpr (hf.apart.imp fun hle => by omega)
  · -- It overlaps with the first one, or it is behind that.
    have hfirst := le_of_occursAt h hplace
    by_cases hoverlap : place < before.length + sep.length
    · exact ⟨before.length, List.mem_cons_self, hfirst, hoverlap⟩
    · obtain ⟨later, rfl⟩ := Nat.exists_eq_add_of_le (Nat.le_of_not_lt hoverlap)
      rw [hcs] at hplace
      obtain ⟨first, hmem, hle, hlt⟩ := hf.all later (occursAt_behind.mp hplace)
      exact ⟨_, List.mem_cons_of_mem _ (List.mem_map_of_mem hmem), by omega, by omega⟩

theorem sorted (hsep : sep ≠ []) (hf : FoundFromLeft sep cs places) :
    places.Pairwise (· < ·) := by
  have hpos := List.length_pos_iff.mpr hsep
  exact hf.apart.imp fun hle => by omega

/-- Two places that are found are apart. -/
theorem le_of_lt (hf : FoundFromLeft sep cs places) {first second : Nat}
    (hfirst : first ∈ places) (hsecond : second ∈ places) (hlt : first < second) :
    first + sep.length ≤ second := by
  have hp := hf.apart
  clear hf
  induction places with
  | nil => cases hfirst
  | cons place places ih =>
    obtain ⟨hhead, htail⟩ := List.pairwise_cons.mp hp
    rcases List.mem_cons.mp hfirst with rfl | hfirst'
    · rcases List.mem_cons.mp hsecond with rfl | hsecond'
      · exact absurd hlt (Nat.lt_irrefl _)
      · exact hhead second hsecond'
    · rcases List.mem_cons.mp hsecond with rfl | hsecond'
      · have hle := hhead first hfirst'
        omega
      · exact ih hfirst' hsecond' htail

/-- What is found first in one way overlaps with nothing found before it in another. -/
theorem mem_of_below {places' : List Nat} (hf : FoundFromLeft sep cs places)
    (hf' : FoundFromLeft sep cs places') {place : Nat}
    (hbelow : ∀ first < place, first ∈ places' → first ∈ places) (hplace : place ∈ places) :
    place ∈ places' := by
  obtain ⟨first, hfirst, hle, hlt⟩ := hf'.all place (hf.found place hplace)
  rcases Nat.lt_or_eq_of_le hle with hbefore | rfl
  · have hapart := hf.le_of_lt (hbelow first hbefore hfirst) hplace hbefore
    omega
  · exact hfirst

/-- **There is one way to find separators from the left.** -/
theorem unique (hsep : sep ≠ []) {places' : List Nat} (hf : FoundFromLeft sep cs places)
    (hf' : FoundFromLeft sep cs places') : places = places' := by
  refine (hf.sorted hsep).eq_of_mem_iff (hf'.sorted hsep) fun place => ?_
  induction place using Nat.strong_induction_on with
  | _ place ih =>
    exact ⟨hf.mem_of_below hf' fun first hlt => (ih first hlt).mpr,
      hf'.mem_of_below hf fun first hlt => (ih first hlt).mp⟩

end FoundFromLeft

/-! ## Splitting -/

/-- A text is put together from the parts that it is split into. -/
theorem intercalate_splitAtMost (sep : List Char) : ∀ (fuel : Nat) (cs : List Char),
    sep.intercalate (splitAtMost sep fuel cs) = cs
  | 0, cs => List.intercalate_singleton
  | fuel + 1, cs => by
    unfold splitAtMost
    split
    · exact List.intercalate_singleton
    · rename_i before after hcut
      have hne : splitAtMost sep fuel after ≠ [] := by
        cases fuel with
        | zero => exact List.cons_ne_nil _ _
        | succ fuel =>
          unfold splitAtMost
          split <;> exact List.cons_ne_nil _ _
      rw [List.intercalate_cons_of_ne_nil hne, intercalate_splitAtMost sep fuel after,
        eq_append_of_cut? hcut, List.append_assoc]

/-- With as many cuts as there are characters, no part has a separator in it, and there is one
more part than separators. -/
theorem splitAtMost_spec (hsep : sep ≠ []) : ∀ (fuel : Nat) (cs : List Char), cs.length ≤ fuel →
    (∀ part ∈ splitAtMost sep fuel cs, ¬ sep <:+: part) ∧
      ∃ places, FoundFromLeft sep cs places ∧
        (splitAtMost sep fuel cs).length = places.length + 1
  | 0, cs, hlength => by
    obtain rfl := List.length_eq_zero_iff.mp (Nat.le_zero.mp hlength)
    have hnone : ¬ sep <:+: [] := fun h => hsep (List.infix_nil.mp h)
    exact ⟨fun part hpart => List.mem_singleton.mp hpart ▸ hnone, [], .of_absent hnone, rfl⟩
  | fuel + 1, cs, hlength => by
    unfold splitAtMost
    split
    · rename_i hcut
      have hnone := cut?_eq_none.mp hcut
      exact ⟨fun part hpart => List.mem_singleton.mp hpart ▸ hnone, [], .of_absent hnone, rfl⟩
    · rename_i before after hcut
      have hshorter : after.length ≤ fuel := by
        have hpos := List.length_pos_iff.mpr hsep
        rw [eq_append_of_cut? hcut, List.length_append, List.length_append] at hlength
        omega
      obtain ⟨hparts, places, hfound, hcount⟩ := splitAtMost_spec hsep fuel after hshorter
      refine ⟨fun part hpart => ?_, _, hfound.of_cut? hsep hcut, ?_⟩
      · rcases List.mem_cons.mp hpart with rfl | hlater
        · exact not_infix_of_cut? hsep hcut
        · exact hparts part hlater
      · rw [List.length_cons, List.length_cons, List.length_map, hcount]

variable {s sep : String}

theorem toList_split (hsep : sep ≠ "") :
    (split s sep).map String.toList = splitOn sep.toList s.toList := by
  rw [split, if_neg (by rwa [String.isEmpty_iff]), List.map_map]
  exact List.map_id'' (fun _ => String.toList_ofList) _

theorem split_empty (s : String) : split s "" = s.toList.map Char.toString := if_pos rfl

theorem intercalate_nil_singletons (cs : List Char) : [].intercalate (cs.map ([·])) = cs := by
  induction cs with
  | nil => rfl
  | cons c cs ih =>
    cases cs with
    | nil => rfl
    | cons d cs =>
      rw [List.map_cons, List.map_cons, List.intercalate_cons_cons,
        ← List.map_cons (f := ([·])), ih]
      rfl

/-- A text is put together from its parts. -/
theorem joinWith_split (s sep : String) : joinWith sep (split s sep) = s := by
  refine String.toList_inj.mp ?_
  rw [joinWith, String.toList_intercalate]
  by_cases hsep : sep = ""
  · subst hsep
    have hchars : (s.toList.map Char.toString).map String.toList = s.toList.map ([·]) := by
      rw [List.map_map]
      exact List.map_congr_left fun c _ => String.toList_singleton c
    rw [split_empty, hchars]
    exact intercalate_nil_singletons s.toList
  · rw [toList_split hsep]
    exact intercalate_splitAtMost _ _ _

/-- No part has the separator in it, and there is one more part than there are separators. -/
theorem split_spec (s : String) (hsep : sep ≠ "") :
    (∀ part ∈ split s sep, ¬ sep.toList <:+: part.toList) ∧
      ∃ places, FoundFromLeft sep.toList s.toList places ∧
        (split s sep).length = places.length + 1 := by
  have hne : sep.toList ≠ [] := fun h => hsep (String.toList_eq_nil_iff.mp h)
  obtain ⟨hparts, places, hfound, hcount⟩ :=
    splitAtMost_spec hne s.toList.length s.toList (Nat.le_refl _)
  refine ⟨fun part hpart => hparts _ ?_, places, hfound, ?_⟩
  · have hmem : part.toList ∈ (split s sep).map String.toList := List.mem_map_of_mem hpart
    rwa [toList_split hsep] at hmem
  · rw [← List.length_map (f := String.toList), toList_split hsep]
    exact hcount

end TaskVm.Text

namespace TaskVm

@[simp] theorem Heap.display_string (h : Heap) (s : String) : h.display (.string s) = s := rfl

/-- **Joining undoes splitting.** Any string is split at any separator into an array of strings,
and joined with that separator they are the string again. No part has a separator in it that is not
empty, and there is one part more than separators that are found from the left; at the empty one
there is a part for each character. -/
theorem join_split (hosts : Array HostFunction) (splits joins : SinkId) (h : Heap)
    (s sep : String) :
    ∃ (id : ArrayId) (h' : Heap) (parts : List String),
      (Builtin.split.native splits).call hosts [.string s, .string sep] h = .ok (.array id) h' ∧
      (h'.array id).toList = parts.map .string ∧
      (Builtin.join.native joins).call hosts [.array id, .string sep] h' = .ok (.string s) h' ∧
      (sep ≠ "" → (∀ part ∈ parts, ¬ sep.toList <:+: part.toList) ∧
        ∃ places, (∀ others, Text.FoundFromLeft sep.toList s.toList others ↔ others = places) ∧
          parts.length = places.length + 1) ∧
      (sep = "" → parts.length = s.length) := by
  let items : List Value := (Text.split s sep).map .string
  let h' : Heap := (h.newArray items.toArray).2
  have hitems : (h'.array (h.newArray items.toArray).1).toList = items := by
    rw [Heap.array_newArray, List.toList_toArray]
  refine ⟨(h.newArray items.toArray).1, h', Text.split s sep, rfl, hitems, ?_, fun hsep => ?_,
    fun hsep => ?_⟩
  · have hdisplay : items.map h'.display = Text.split s sep := by
      rw [List.map_map]
      exact List.map_id'' (Heap.display_string h') _
    change EStateM.Result.ok (Value.string (Text.joinWith sep
      ((h'.array (h.newArray items.toArray).1).toList.map h'.display))) h' = _
    rw [hitems, hdisplay, Text.joinWith_split]
  · obtain ⟨hparts, places, hfound, hcount⟩ := Text.split_spec s hsep
    have hne : sep.toList ≠ [] := fun h => hsep (String.toList_eq_nil_iff.mp h)
    refine ⟨hparts, places, fun others => ⟨fun h => h.unique hne hfound, ?_⟩, hcount⟩
    rintro rfl
    exact hfound
  · subst hsep
    rw [Text.split_empty, List.length_map, String.length_toList]

end TaskVm
