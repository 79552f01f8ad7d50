/-!
# Splitting, joining and replacing

All of them look for a separator from the left and never overlap two finds. They work on
lists of characters; `cut?` finds the first occurrence, and everything else is that step
repeated.
-/

namespace TaskVm.Text

/-- What follows a given start of a text. -/
def dropStart? : List Char → List Char → Option (List Char)
  | [], cs => some cs
  | _ :: _, [] => none
  | s :: ss, c :: cs => if s = c then dropStart? ss cs else none

/-- A text begins with its start, and the rest follows. -/
theorem dropStart?_eq_some {s cs rest : List Char} :
    dropStart? s cs = some rest ↔ cs = s ++ rest := by
  fun_induction dropStart? s cs with
  | case1 cs => simp
  | case2 s ss => simp
  | case3 s ss cs ih => simpa using ih
  | case4 s ss c cs h => simp [Ne.symm h]

/-- What stands before and after the first occurrence of a separator that ends in `last`.
The second text is the first one from where the separator would end: there is an occurrence
only where `last` is found there, and none where that text has come to its end. -/
def cutWhere (sep : List Char) (last : Char) :
    List Char → List Char → Option (List Char × List Char)
  | c :: cs, a :: ahead =>
    match if a = last then dropStart? sep (c :: cs) else none with
    | some rest => some ([], rest)
    | none => (cutWhere sep last cs ahead).map fun p => (c :: p.1, p.2)
  | _, _ => none

/-- What stands before and after the first occurrence of a separator. -/
def cut? (sep cs : List Char) : Option (List Char × List Char) :=
  match sep.getLast? with
  | none => some ([], cs)
  | some last => cutWhere sep last cs (cs.drop (sep.length - 1))

/-- A text that begins with a separator has its last character where it ends. -/
theorem head?_drop_of_dropStart? {sep cs rest : List Char} {last : Char}
    (hlast : sep.getLast? = some last) (h : dropStart? sep cs = some rest) :
    (cs.drop (sep.length - 1)).head? = some last := by
  obtain rfl := dropStart?_eq_some.1 h
  obtain ⟨init, rfl⟩ := List.getLast?_eq_some_iff.1 hlast
  simp

/-- Nothing but the empty separator is in the empty text. -/
theorem cut?_nil (sep : List Char) :
    cut? sep [] = if sep.isEmpty then some ([], []) else none := by
  cases h : sep.getLast? with
  | none => simp [cut?, List.getLast?_eq_none_iff.1 h]
  | some last =>
    have hne : sep ≠ [] := by rintro rfl; simp at h
    simp [cut?, h, cutWhere, hne]

/-- A separator begins a text, or its first occurrence is in what follows the first
character. -/
theorem cut?_cons (sep : List Char) (c : Char) (cs : List Char) :
    cut? sep (c :: cs) = match dropStart? sep (c :: cs) with
      | some rest => some ([], rest)
      | none => (cut? sep cs).map fun p => (c :: p.1, p.2) := by
  cases h : sep.getLast? with
  | none =>
    obtain rfl := List.getLast?_eq_none_iff.1 h
    simp [cut?, dropStart?]
  | some last =>
    have hdrop : cs.drop (sep.length - 1) = ((c :: cs).drop (sep.length - 1)).tail := by
      rw [List.tail_drop, List.drop_succ_cons]
    cases hd : dropStart? sep (c :: cs) with
    | some rest =>
      have hhead := head?_drop_of_dropStart? h hd
      cases ha : (c :: cs).drop (sep.length - 1) with
      | nil => simp [ha] at hhead
      | cons a ahead =>
        obtain rfl : a = last := by simpa [ha] using hhead
        simp [cut?, h, ha, cutWhere, hd]
    | none =>
      cases ha : (c :: cs).drop (sep.length - 1) with
      | nil =>
        have hcs : cs.drop (sep.length - 1) = [] := by rw [hdrop, ha, List.tail_nil]
        cases cs <;> simp [cut?, h, ha, hcs, cutWhere]
      | cons a ahead =>
        have hcs : cs.drop (sep.length - 1) = ahead := by rw [hdrop, ha, List.tail_cons]
        simp [cut?, h, ha, hcs, cutWhere, hd]

/-- The text is what stands before the separator, the separator, and what stands after. -/
theorem eq_append_of_cut? {sep cs before after : List Char}
    (h : cut? sep cs = some (before, after)) : cs = before ++ sep ++ after := by
  induction cs generalizing before with
  | nil =>
    rw [cut?_nil] at h
    simp_all
  | cons c cs ih =>
    rw [cut?_cons] at h
    cases hd : dropStart? sep (c :: cs) with
    | some rest =>
      obtain ⟨rfl, rfl⟩ : [] = before ∧ rest = after := by simpa [hd] using h
      simpa using dropStart?_eq_some.1 hd
    | none =>
      obtain ⟨p, hp, hq⟩ := Option.map_eq_some_iff.1 (by simpa only [hd] using h)
      obtain ⟨rfl, rfl⟩ : c :: p.1 = before ∧ p.2 = after := by simpa using hq
      simpa using ih hp

/-- Split at each occurrence of a separator, at most `fuel` times. -/
def splitAtMost (sep : List Char) : Nat → List Char → List (List Char)
  | 0, cs => [cs]
  | fuel + 1, cs =>
    match cut? sep cs with
    | none => [cs]
    | some (before, after) => before :: splitAtMost sep fuel after

/-- Split at each occurrence of a separator that is not empty. -/
def splitOn (sep cs : List Char) : List (List Char) := splitAtMost sep cs.length cs

/-- The parts of a text; an empty separator splits it into its characters. -/
def split (s sep : String) : List String :=
  if sep.isEmpty then s.toList.map Char.toString
  else (splitOn sep.toList s.toList).map String.ofList

/-- Texts one after the other with a separator between them. -/
def joinWith (sep : String) (parts : List String) : String := sep.intercalate parts

/-- The text has the other one in it. -/
def contains (s sub : String) : Bool := (cut? sub.toList s.toList).isSome

/-- The text begins with the other one. -/
def startsWith (s start : String) : Bool := (dropStart? start.toList s.toList).isSome

/-- The text ends with the other one. -/
def endsWith (s ending : String) : Bool :=
  (dropStart? ending.toList.reverse s.toList.reverse).isSome

/-- Replace each occurrence; nothing is found between any two characters and at both ends. -/
def replace (s old new : String) : String :=
  if old.isEmpty then
    new ++ String.join (s.toList.map fun c => c.toString ++ new)
  else joinWith new ((splitOn old.toList s.toList).map String.ofList)

end TaskVm.Text
