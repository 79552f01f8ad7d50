import TaskVm.Proofs.PathNames

/-!
# The nearest project

The project of a directory is the one of the nearest directory, at or above it, that has a project
file. It is looked for on the text of a path, by cutting off one component after the other. That is
the same as going up in the tree as long as the text goes down: a path with names only, from the
root on. But a path may itself go up, and then the text leads back through directories that are
beside the one it is the path of, or below it. And the text of a path that does not begin at the
root ends at the current directory, and what is above that is not looked at.

So it is said here which directories a path leads through, and the search is right when what these
have of project files is what the directories above have. It is wrong in general, as a tree shows in
which a path leads into a directory and out again.
-/

namespace TaskVm

namespace Path

variable {start path above : String} {d e : List String}

/-- Go to a name from a directory. -/
def go (d : List String) (c : String) : List String := if c = ".." then d.dropLast else d ++ [c]

theorem foldl_go {ns : List String} (h : ".." ∉ ns) (d : List String) :
    ns.foldl go d = d ++ ns := by
  induction ns generalizing d with
  | nil => exact (List.append_nil d).symm
  | cons c ns ih =>
    obtain ⟨hne, hrest⟩ := not_or.mp (mt List.mem_cons.mpr h)
    rw [List.foldl_cons, go, if_neg (Ne.symm hne), ih hrest, List.append_assoc,
      List.singleton_append]

/-- Whichever way a name goes, what is above where it leads to has been above before. -/
theorem prefix_go {c : String} (h : e <+: go d c) : e = go d c ∨ e <+: d := by
  unfold go at h ⊢
  split
  · rename_i hup
    rw [if_pos hup] at h
    exact .inr (h.trans (List.dropLast_prefix d))
  · rename_i hdown
    rw [if_neg hdown] at h
    exact List.prefix_concat_iff.mp h

/-- A path that is come by from another one on the way up. -/
structure Above (start path : String) : Prop where
  text : path.toList <+: start.toList
  names : names path <+: names start
  absolute : isAbsolute path = isAbsolute start
  fits : (join path projectFile).utf8ByteSize ≤ (join start projectFile).utf8ByteSize

theorem Above.refl (start : String) : Above start start :=
  ⟨List.prefix_refl _, List.prefix_refl _, rfl, Nat.le_refl _⟩

theorem Above.parent (h : Above start path) (hparent : parent? path = some above) :
    Above start above := by
  obtain ⟨htext, habsolute⟩ := text_parent? hparent
  refine ⟨htext.trans h.text, ?_, habsolute.trans h.absolute, ?_⟩
  · rcases names_parent? hparent with hnames | ⟨c, hnames⟩
    · exact hnames ▸ h.names
    · exact (List.prefix_append _ [c]).trans (hnames ▸ h.names)
  · exact (size_join_le htext (length_parent?_lt hparent) projectFile).trans h.fits

/-- Where a path does not go up, the paths above do not. -/
theorem Above.down (h : Above start path) (hdown : ".." ∉ Path.names start) :
    ".." ∉ Path.names path :=
  fun hup => hdown (h.names.subset hup)

theorem isName_projectFile : IsName projectFile := by decide

end Path

/-- A path that is blocked leads to nothing. -/
def Place.orNothing : Place → Place
  | .blocked => .nothing
  | p => p

theorem Place.eq_of_orNothing {place place' : Place} (h : place.orNothing = place')
    (hne : place' ≠ .nothing) : place = place' := by
  cases place with
  | blocked => exact absurd h.symm hne
  | file | directory | nothing => exact h

namespace FileTree

open TaskVm.Path

variable {t : FileTree} {d : List String} {c : String} {cs ns ms : List String}
  {start path above : String}

/-- Everything that the tree lists. -/
def entries (t : FileTree) : List (List String) := t.files.map (·.1) ++ t.directories

/-- A tree as it can be on a disk. -/
structure Sound (t : FileTree) : Prop where
  names : ∀ n ∈ t.entries, ∀ c ∈ n, IsName c
  /-- Nothing is in a file. -/
  leaves : ∀ f ∈ t.files, ∀ n ∈ t.entries, f.1 <+: n → n = f.1

instance (t : FileTree) : Decidable t.Sound :=
  decidable_of_iff ((∀ n ∈ t.entries, ∀ c ∈ n, IsName c) ∧
      ∀ f ∈ t.files, ∀ n ∈ t.entries, f.1 <+: n → n = f.1)
    ⟨fun h => ⟨h.1, h.2⟩, fun h => ⟨h.1, h.2⟩⟩

/-- The directory that a path begins at. -/
def origin (t : FileTree) (path : String) : List String :=
  if isAbsolute path then [] else t.current

/-- Where a path leads to: each name is followed from where those before it have led. -/
def located (t : FileTree) (path : String) : List String := (names path).foldl go (t.origin path)

/-- What a path leads through, from where it begins to where it leads to. -/
def through (t : FileTree) (path : String) : List (List String) :=
  (names path).inits.map fun ns => ns.foldl go (t.origin path)

/-- There is something in a directory with the name of project files. -/
def HasProject (t : FileTree) (d : List String) : Prop := t.placeOf (d ++ [projectFile]) ≠ .nothing

instance (t : FileTree) (d : List String) : Decidable (t.HasProject d) :=
  inferInstanceAs (Decidable (t.placeOf (d ++ [projectFile]) ≠ .nothing))

/-- A path that does not go up leads to all its names, one in the other. -/
theorem located_down (h : ".." ∉ names path) : t.located path = t.origin path ++ names path :=
  foldl_go h _

/-! ## What is in a tree -/

theorem placeOf_ne_blocked (t : FileTree) (d : List String) : t.placeOf d ≠ .blocked := by
  unfold placeOf
  split
  · nofun
  · dsimp only
    split <;> nofun

theorem orNothing_placeOf (t : FileTree) (d : List String) :
    (t.placeOf d).orNothing = t.placeOf d := by
  unfold Place.orNothing
  split
  · rename_i hblocked
    exact absurd hblocked (t.placeOf_ne_blocked d)
  · rfl

/-- A file that is found is a listed one, with the names that it was looked for with. -/
theorem listed_of_find? {f : List String × List UInt8}
    (h : t.files.find? (fun f => f.1 == d) = some f) : f ∈ t.files ∧ f.1 = d := by
  have hnames := List.find?_some h
  exact ⟨List.mem_of_find?_eq_some h, beq_iff_eq.mp hnames⟩

/-- What is there is listed, or something in it is. -/
theorem exists_entry (h : t.placeOf d ≠ .nothing) (hd : d ≠ []) : ∃ n ∈ t.entries, d <+: n := by
  unfold placeOf at h
  split at h
  · rename_i f hf
    obtain ⟨hmem, rfl⟩ := listed_of_find? hf
    exact ⟨f.1, List.mem_append_left _ (List.mem_map_of_mem hmem), List.prefix_refl _⟩
  · dsimp only at h
    split at h
    · rename_i hany
      rcases Bool.or_eq_true_iff.mp hany with hempty | hany
      · exact absurd (List.isEmpty_iff.mp hempty) hd
      · obtain ⟨n, hn, hbegins⟩ := List.any_eq_true.mp hany
        exact ⟨n, hn, List.isPrefixOf_iff_prefix.mp hbegins⟩
    · exact absurd rfl h

theorem Sound.isName (ht : t.Sound) (h : t.placeOf d ≠ .nothing) (hc : c ∈ d) : IsName c := by
  obtain ⟨n, hn, hbegins⟩ := exists_entry h (List.ne_nil_of_mem hc)
  exact ht.names n hn c (hbegins.subset hc)

/-- What something is in is a directory. -/
theorem Sound.directory (ht : t.Sound) (h : t.placeOf (d ++ c :: cs) ≠ .nothing) :
    t.placeOf d = .directory := by
  obtain ⟨n, hn, hbegins⟩ := exists_entry h (by simp)
  have hd : d <+: n := (List.prefix_append d _).trans hbegins
  unfold placeOf
  split
  · rename_i f hf
    obtain ⟨hmem, rfl⟩ := listed_of_find? hf
    have hlength := hbegins.length_le
    rw [ht.leaves f hmem n hn hd, List.length_append, List.length_cons] at hlength
    omega
  · refine if_pos (Bool.or_eq_true_iff.mpr (.inr ?_))
    exact List.any_eq_true.mpr ⟨n, hn, List.isPrefixOf_iff_prefix.mpr hd⟩

/-! ## Following names -/

theorem follow_blank (hd : t.placeOf d = .directory) (hc : namesNothing c = true)
    (cs : List String) : t.follow d (c :: cs) = t.follow d cs := by
  rw [follow, hd]
  exact if_pos hc

theorem follow_name (hd : t.placeOf d = .directory) (hc : namesNothing c = false)
    (cs : List String) : t.follow d (c :: cs) =
      if c.utf8ByteSize ≤ maxComponent then t.follow (go d c) cs else .blocked := by
  rw [follow, hd, go]
  dsimp only
  rw [if_neg (ne_true_of_eq_false hc)]
  split
  · rename_i habove
    rw [habove, if_pos (by decide)]
  · rfl

/-- Only from a directory can names be followed. -/
theorem follow_of_not_directory (hd : t.placeOf d ≠ .directory) (c : String) (cs : List String) :
    t.follow d (c :: cs) = if t.placeOf d = .nothing then .nothing else .blocked := by
  rw [follow]
  cases hplace : t.placeOf d with
  | directory => exact absurd hplace hd
  | file | nothing | blocked => rfl

theorem directory_of_follow (h : t.follow d cs = .directory) : t.placeOf d = .directory := by
  cases cs with
  | nil => exact h
  | cons c cs =>
    by_contra hd
    rw [follow_of_not_directory hd] at h
    split at h <;> cases h

/-- A name that leads towards a directory leads there whatever is to follow. -/
theorem follow_name_of_directory (hc : namesNothing c = false)
    (h : t.follow d (c :: cs) = .directory) (ms : List String) :
    t.follow d (c :: ms) = t.follow (go d c) ms := by
  have hd := directory_of_follow h
  rw [follow_name hd hc] at h ⊢
  split
  · rfl
  · rename_i hlong
    rw [if_neg hlong] at h
    cases h

/-- What names nothing may be left out if a name comes behind it. -/
theorem follow_named (t : FileTree) (d cs : List String) (c : String) :
    t.follow d (cs ++ [c]) = t.follow d (named cs ++ [c]) := by
  induction cs generalizing d with
  | nil => rfl
  | cons b cs ih =>
    by_cases hd : t.placeOf d = .directory
    · cases hb : namesNothing b with
      | true =>
        rw [List.cons_append, follow_blank hd hb, named_blank hb]
        exact ih d
      | false =>
        rw [named_name hb, List.cons_append, List.cons_append, follow_name hd hb,
          follow_name hd hb, ih]
    · have hstop : ∀ ns, t.follow d (ns ++ [c]) =
          if t.placeOf d = .nothing then .nothing else .blocked := by
        intro ns
        cases ns <;> exact follow_of_not_directory hd _ _
      rw [hstop, hstop]

/-- A path to a directory leads there by its names alone. -/
theorem directory_named (h : t.follow d cs = .directory) : t.follow d (named cs) = .directory := by
  induction cs generalizing d with
  | nil => exact h
  | cons c cs ih =>
    cases hc : namesNothing c with
    | true =>
      rw [follow_blank (directory_of_follow h) hc] at h
      rw [named_blank hc]
      exact ih h
    | false =>
      rw [named_name hc, follow_name_of_directory hc h]
      rw [follow_name_of_directory hc h] at h
      exact ih h

/-- Where names have led to a directory, further names are followed from there. -/
theorem follow_append (hns : ∀ c ∈ ns, namesNothing c = false) (h : t.follow d ns = .directory)
    (ms : List String) : t.follow d (ns ++ ms) = t.follow (ns.foldl go d) ms := by
  induction ns generalizing d with
  | nil => rfl
  | cons c ns ih =>
    obtain ⟨hc, hns⟩ := List.forall_mem_cons.mp hns
    have hnext := follow_name_of_directory hc h
    rw [hnext] at h
    rw [List.cons_append, hnext]
    exact ih hns h

/-- Names that lead to a directory lead to directories on the way. -/
theorem directory_of_append (hns : ∀ c ∈ ns, namesNothing c = false)
    (h : t.follow d (ns ++ ms) = .directory) : t.follow d ns = .directory := by
  induction ns generalizing d with
  | nil => exact directory_of_follow h
  | cons c ns ih =>
    obtain ⟨hc, hns⟩ := List.forall_mem_cons.mp hns
    have hnext := follow_name_of_directory hc h
    rw [List.cons_append, hnext] at h
    rw [hnext]
    exact ih hns h

/-- Names that do not go up are followed to what is listed under them. -/
theorem Sound.follow_down (ht : t.Sound) (hns : ∀ c ∈ ns, namesNothing c = false)
    (hup : ".." ∉ ns) : (t.follow d ns).orNothing = t.placeOf (d ++ ns) := by
  induction ns generalizing d with
  | nil => rw [follow, List.append_nil, orNothing_placeOf]
  | cons c ns ih =>
    obtain ⟨hc, hns⟩ := List.forall_mem_cons.mp hns
    obtain ⟨hne, hup⟩ := not_or.mp (mt List.mem_cons.mpr hup)
    have hlast : t.placeOf (d ++ [c] ++ ns) = t.placeOf (d ++ c :: ns) := by
      rw [List.append_assoc, List.singleton_append]
    by_cases hd : t.placeOf d = .directory
    · rw [follow_name hd hc, go, if_neg (Ne.symm hne)]
      split
      · rw [ih hns hup, hlast]
      · rename_i hlong
        by_contra hplace
        exact hlong (ht.isName (Ne.symm hplace) (by simp : c ∈ d ++ c :: ns)).short
    · rw [follow_of_not_directory hd]
      have hnothing : t.placeOf (d ++ c :: ns) = .nothing := by
        by_contra hplace
        exact hd (ht.directory hplace)
      rw [hnothing]
      split <;> rfl

/-! ## Project files -/

theorem name_of_mem_names (h : c ∈ names path) : namesNothing c = false := by
  simpa [names] using (List.mem_filter.mp h).2

theorem origin_join (t : FileTree) (path : String) :
    t.origin (join path projectFile) = t.origin path := by
  rw [origin, isAbsolute_join path isName_projectFile, origin]

/-- The file that is looked for is the one that its names lead to. -/
theorem lookup_join (hvalid : isValid (join path projectFile) = true) :
    t.lookup (join path projectFile) = t.follow (t.origin path) (names path ++ [projectFile]) := by
  obtain ⟨front, hcomponents, hfront⟩ := components_join path isName_projectFile
  have hne : (join path projectFile).isEmpty = false := by
    rw [Bool.eq_false_iff]
    intro hempty
    have hnames := names_join path isName_projectFile
    rw [String.isEmpty_iff.mp hempty] at hnames
    have hnil : names "" = [] := by decide
    rw [hnil] at hnames
    simp at hnames
  rw [lookup, hne, hvalid, hcomponents, follow_named, hfront, ← t.origin_join]
  rfl

theorem origin_above (t : FileTree) (h : Above start path) : t.origin path = t.origin start := by
  rw [origin, h.absolute, origin]

theorem lookup_eq_directory (h : t.lookup path = .directory) :
    isValid path = true ∧ t.follow (t.origin path) (components path) = .directory := by
  unfold lookup at h
  split at h
  · cases h
  · split at h
    · cases h
    · rename_i hvalid
      exact ⟨by simpa using hvalid, h⟩

/-- Above the path of a directory, all paths are paths of directories. -/
theorem follow_on_the_way (hstart : t.lookup start = .directory) (h : Above start path) :
    t.placeOf (t.located path) = .directory ∧
      ∀ ms, t.follow (t.origin path) (names path ++ ms) = t.follow (t.located path) ms := by
  have hnames : ∀ c ∈ names path, namesNothing c = false := fun c hc => name_of_mem_names hc
  have hall : t.follow (t.origin start) (names start) = .directory :=
    directory_named (lookup_eq_directory hstart).2
  obtain ⟨ms, hms⟩ := h.names
  rw [← hms, ← t.origin_above h] at hall
  have hhere := directory_of_append hnames hall
  have hfollow := follow_append hnames hhere
  refine ⟨?_, hfollow⟩
  have hstay := hfollow []
  rw [List.append_nil, hhere] at hstay
  exact hstay.symm

/-- Behind the names of a path, the name of project files is followed to what is listed. -/
theorem follow_project (ht : t.Sound) (hway : ".." ∉ names start ∨ t.lookup start = .directory)
    (h : Above start path) :
    (t.follow (t.origin path) (names path ++ [projectFile])).orNothing =
      t.placeOf (t.located path ++ [projectFile]) := by
  rcases hway with hdown | hdirectory
  · have hnames : ∀ c ∈ names path ++ [projectFile], namesNothing c = false ∧ c ≠ ".." := by
      intro c hc
      rcases List.mem_append.mp hc with hc | hc
      · exact ⟨name_of_mem_names hc, fun hup => h.down hdown (hup ▸ hc)⟩
      · rw [List.mem_singleton.mp hc]
        exact ⟨isName_projectFile.named, isName_projectFile.ne_above⟩
    rw [ht.follow_down (fun c hc => (hnames c hc).1) (fun hup => (hnames _ hup).2 rfl),
      located_down (h.down hdown), List.append_assoc]
  · obtain ⟨hlocated, hfollow⟩ := follow_on_the_way hdirectory h
    rw [hfollow, follow_name hlocated isName_projectFile.named,
      if_pos isName_projectFile.short, follow, go, if_neg isName_projectFile.ne_above,
      orNothing_placeOf]

/-- A path with a null character leads to no directory with a project file. -/
theorem placeOf_of_null (ht : t.Sound) (hway : ".." ∉ names start ∨ t.lookup start = .directory)
    (h : Above start path) (hnull : '\x00' ∈ path.toList) :
    t.placeOf (t.located path ++ [projectFile]) = .nothing := by
  rcases hway with hdown | hdirectory
  · obtain ⟨c, hc, hcnull⟩ := exists_name_of_mem hnull (by decide) (by decide)
    by_contra hplace
    rw [located_down (h.down hdown)] at hplace
    exact (ht.isName hplace (by simp [hc] : c ∈ _)).no_null hcnull
  · have hvalid := (lookup_eq_directory hdirectory).1
    simp [isValid, h.text.subset hnull] at hvalid

/-- A path that is short enough can be looked up unless there is a null character in it. -/
theorem null_of_not_isValid (hfits : (join path projectFile).utf8ByteSize ≤ maxLength)
    (h : isValid (join path projectFile) = false) : '\x00' ∈ path.toList := by
  have hnull : '\x00' ∈ (join path projectFile).toList := by
    unfold isValid at h
    rw [decide_eq_true hfits, Bool.true_and] at h
    simpa using h
  unfold join at hnull
  split at hnull <;> simp only [String.toList_append, List.mem_append] at hnull
  · exact hnull.resolve_right isName_projectFile.no_null
  · exact (hnull.resolve_right isName_projectFile.no_null).resolve_right (by decide)

/-- **What is found for a path is the file of the directory that the path leads to.** -/
theorem lookup_project (ht : t.Sound)
    (hfits : (join start projectFile).utf8ByteSize ≤ maxLength)
    (hway : ".." ∉ names start ∨ t.lookup start = .directory) (h : Above start path) :
    (t.lookup (join path projectFile)).orNothing = t.placeOf (t.located path ++ [projectFile]) := by
  cases hvalid : isValid (join path projectFile) with
  | true =>
    rw [lookup_join hvalid]
    exact follow_project ht hway h
  | false =>
    rw [placeOf_of_null ht hway h (null_of_not_isValid (h.fits.trans hfits) hvalid)]
    unfold lookup
    split
    · rfl
    · rw [hvalid]
      rfl

/-! ## The way up -/

theorem exists_iff (path : String) :
    t.exists? path = true ↔ (t.lookup path).orNothing ≠ .nothing := by
  unfold exists?
  cases t.lookup path <;> simp [Place.orNothing]

theorem origin_parent (hparent : parent? path = some above) : t.origin above = t.origin path := by
  rw [origin, (text_parent? hparent).2, origin]

theorem mem_through : d ∈ t.through path ↔
    ∃ ns, ns <+: names path ∧ ns.foldl go (t.origin path) = d := by
  rw [through, List.mem_map]
  exact exists_congr fun ns => and_congr_left fun _ => List.mem_inits ..

/-- What a path leads through the path above leads through too, but for the last place. -/
theorem through_parent (hparent : parent? path = some above) (h : d ∈ t.through path) :
    d = t.located path ∨ d ∈ t.through above := by
  obtain ⟨ns, hns, rfl⟩ := mem_through.mp h
  rw [mem_through, origin_parent hparent]
  rcases names_parent? hparent with hnames | ⟨c, hnames⟩
  · exact .inr ⟨ns, hnames ▸ hns, rfl⟩
  · rw [hnames, List.prefix_concat_iff] at hns
    rcases hns with rfl | hns
    · exact .inl (by rw [located, hnames])
    · exact .inr ⟨ns, hns, rfl⟩

/-- What is at or above the place of a path is at or above that of the path above too, but for the
place itself. -/
theorem prefix_parent (hparent : parent? path = some above) (h : d <+: t.located path) :
    d = t.located path ∨ d <+: t.located above := by
  rw [located, ← origin_parent hparent] at h ⊢
  rcases names_parent? hparent with hnames | ⟨c, hnames⟩ <;> rw [hnames] at h ⊢
  · exact .inr h
  · rw [List.foldl_append] at h ⊢
    exact prefix_go h

/-- **On the way up no directory is passed by that has a project file.** The first one is found, and
what is not found on the way to it has none. -/
theorem nearest_spec {root : Option String} (hsearch : NearestProject t path root)
    (hfind : ∀ path, Above start path →
      (t.exists? (join path projectFile) = true ↔ t.HasProject (t.located path)))
    (h : Above start path) :
    match root with
    | some root => Above start root ∧ t.HasProject (t.located root) ∧
        ∀ d, d <+: t.located path → t.HasProject d → d <+: t.located root
    | none => (∀ d ∈ t.through path, ¬ t.HasProject d) ∧
        ∀ d, d <+: t.located path → t.HasProject d → d <+: t.origin path := by
  have habsent : ∀ {path}, Above start path → t.exists? (join path projectFile) = false →
      ¬ t.HasProject (t.located path) :=
    fun h hnot => mt (hfind _ h).mpr (ne_true_of_eq_false hnot)
  induction hsearch with
  | here hexists => exact ⟨h, (hfind _ h).mp hexists, fun d hd _ => hd⟩
  | @above path above root hnot hparent hrest ih =>
    -- The place itself has none, and all else is seen from the path above.
    have hno := habsent h hnot
    have hnext := ih (h.parent hparent)
    cases root with
    | some root =>
      obtain ⟨hroot, hhas, hnearest⟩ := hnext
      refine ⟨hroot, hhas, fun d hd hproject => ?_⟩
      rcases prefix_parent hparent hd with rfl | hd
      · exact absurd hproject hno
      · exact hnearest d hd hproject
    | none =>
      obtain ⟨hthrough, hnearest⟩ := hnext
      refine ⟨fun d hd => ?_, fun d hd hproject => ?_⟩
      · rcases through_parent hparent hd with rfl | hd
        · exact hno
        · exact hthrough d hd
      · rw [← origin_parent hparent]
        rcases prefix_parent hparent hd with rfl | hd
        · exact absurd hproject hno
        · exact hnearest d hd hproject
  | @none path hnot hparent =>
    have hno := habsent h hnot
    have hnames := names_of_parent?_eq_none hparent
    have hlocated : t.located path = t.origin path := by rw [located, hnames, List.foldl_nil]
    refine ⟨fun d hd => ?_, fun d hd _ => hlocated ▸ hd⟩
    obtain ⟨ns, hns, rfl⟩ := mem_through.mp hd
    rw [hnames, List.prefix_nil] at hns
    rw [hns, List.foldl_nil, ← hlocated]
    exact hno

/-- The nearest directory, at or above one, that has a project file. -/
structure Nearest (t : FileTree) (d nearest : List String) : Prop where
  above : nearest <+: d
  has : t.HasProject nearest
  least : ∀ e, e <+: d → t.HasProject e → e <+: nearest

/-- Going up on the text of a path comes by the directories that matter. -/
structure Climbs (t : FileTree) (start : String) : Prop where
  /-- There is room for the name of project files behind the path. -/
  fits : (join start projectFile).utf8ByteSize ≤ maxLength
  /-- The path does not go up, or else it is the path of a directory and leads through no
  directory with a project file that is not at or above that one. -/
  straight : ".." ∉ names start ∨ t.lookup start = .directory ∧
    ∀ d ∈ t.through start, t.HasProject d → d <+: t.located start
  /-- The text goes up to the root. If not, it leads through a directory with a project file, or
  there is none above. -/
  reaches : isAbsolute start = true ∨ (∃ d ∈ t.through start, t.HasProject d) ∨
    ∀ d, d <+: t.located start → ¬ t.HasProject d

/-- A directory that is come by and has a project file is at or above the one that was started
from. -/
theorem Climbs.located_above (hc : t.Climbs start) (h : Above start path)
    (hhas : t.HasProject (t.located path)) : t.located path <+: t.located start := by
  have horigin := t.origin_above h
  rcases hc.straight with hdown | ⟨-, hstraight⟩
  · rw [located_down (h.down hdown), located_down hdown, horigin]
    exact (List.prefix_append_right_inj _).mpr h.names
  · exact hstraight _ (mem_through.mpr ⟨names path, h.names, by rw [located, horigin]⟩) hhas

end FileTree

open FileTree in
/-- **The nearest project is found.** From any directory and by any path that comes by the
directories that matter, what is loaded is the project of the nearest directory at or above with a
project file, and that directory is its root. Where none of them has one, the project is one that
says nothing. -/
theorem ConfigLoader.loads_nearest (l : ConfigLoader) (s : Surroundings) {start : String}
    (ht : s.files.Sound) (hc : s.files.Climbs start) :
    ∃ root, l.loadFromDirectory s start = (do
        let project ← loadProject s.files root
        l.around s root project) ∧
      match root with
      | some root => s.files.Nearest (s.files.located start) (s.files.located root) ∧
          s.files.lookup (Path.join root projectFile) =
            s.files.placeOf (s.files.located root ++ [projectFile])
      | none => ∀ d, d <+: s.files.located start → ¬ s.files.HasProject d := by
  obtain ⟨root, hsearch, hfind⟩ := findProject_spec s.files (Nat.lt_succ_self start.length)
  have hlook : ∀ path, Path.Above start path →
      (s.files.lookup (Path.join path projectFile)).orNothing =
        s.files.placeOf (s.files.located path ++ [projectFile]) :=
    fun path h => lookup_project ht hc.fits (hc.straight.imp_right And.left) h
  have hspec := nearest_spec hsearch (fun path h => by rw [exists_iff, hlook path h, HasProject])
    (.refl start)
  have hload : l.loadFromDirectory s start = (do
      let project ← loadProject s.files root
      l.around s root project) := by
    rw [loadFromDirectory, hfind]
    cases loadProject s.files root <;> rfl
  refine ⟨root, hload, ?_⟩
  cases root with
  | some root =>
    obtain ⟨hroot, hhas, hleast⟩ := hspec
    exact ⟨⟨hc.located_above hroot hhas, hhas, hleast⟩,
      Place.eq_of_orNothing (hlook root hroot) hhas⟩
  | none =>
    obtain ⟨hthrough, hleast⟩ := hspec
    -- Nothing was found on the way up. A path from the root has been climbed to its end; of another
    -- one it is given what lies above.
    rcases hc.reaches with habsolute | ⟨d, hd, hhas⟩ | hnone
    · intro d hd hhas
      have horigin : s.files.origin start = [] := if_pos habsolute
      have hroot := hleast d hd hhas
      rw [horigin, List.prefix_nil] at hroot
      subst hroot
      exact hthrough [] (mem_through.mpr ⟨[], List.nil_prefix, horigin⟩) hhas
    · exact absurd hhas (hthrough d hd)
    · exact hnone

/-- A project with a directory in it, which is the current one. -/
def roundabout : Surroundings where
  files := {
    files := [(["a", projectFile], "[package]\nname = \"in\"\nversion = \"1.0\"\n".toUTF8.toList)]
    directories := [["a", "b"]]
    current := ["a", "b"] }

theorem roundabout_climbs : roundabout.files.Climbs "./../b/" where
  fits := by decide
  straight := .inr (by decide)
  reaches := .inr (.inl ⟨["a"], by decide, by decide⟩)

theorem roundabout_sound : roundabout.files.Sound := by decide

theorem roundabout_loads : roundabout.files.Sound ∧ roundabout.files.Climbs "./../b/" ∧
    ∃ root, ({} : ConfigLoader).loadFromDirectory roundabout "./../b/" = (do
        let project ← loadProject roundabout.files root
        ({} : ConfigLoader).around roundabout root project) ∧
      match root with
      | some root => roundabout.files.Nearest ["a", "b"] (roundabout.files.located root) ∧
          roundabout.files.lookup (Path.join root projectFile) =
            roundabout.files.placeOf (roundabout.files.located root ++ [projectFile])
      | none => ∀ d, d <+: ["a", "b"] → ¬ roundabout.files.HasProject d :=
  ⟨roundabout_sound, roundabout_climbs,
    ConfigLoader.loads_nearest {} roundabout roundabout_sound roundabout_climbs⟩

/-- **The text of a path may mislead.** One path leads into the project and out again: no directory
at or above the root has a project file, but the one inside the project is found. The other path is
a dot: the directory above the current one has a project file, but it is not on the text, and so it
is not found. -/
theorem roundabout_misleads : roundabout.files.Sound ∧
    (roundabout.files.lookup "/a/.." = .directory ∧
      (∀ d, d <+: roundabout.files.located "/a/.." → ¬ roundabout.files.HasProject d) ∧
      ({} : ConfigLoader).loadFromDirectory roundabout "/a/.." = .ok
        { project := { package := some { name := "in", version := "1.0" } }, root := some "/a" }) ∧
    roundabout.files.lookup "." = .directory ∧
      roundabout.files.Nearest (roundabout.files.located ".") ["a"] ∧
      ({} : ConfigLoader).loadFromDirectory roundabout "." = .ok {} := by
  refine ⟨roundabout_sound, ⟨by decide, fun d hd => ?_, by decide +kernel⟩, by decide, ?_,
    by decide +kernel⟩
  · have hroot : roundabout.files.located "/a/.." = [] := by decide
    rw [hroot, List.prefix_nil] at hd
    subst hd
    decide
  · have hall : ∀ e ∈ (roundabout.files.located ".").inits, roundabout.files.HasProject e →
        e <+: ["a"] := by decide
    exact ⟨by decide, by decide, fun e he => hall e ((List.mem_inits ..).mpr he)⟩

end TaskVm
