import TaskVm.Config.Loader
import TaskVm.Proofs.Separators

/-!
# Limits in layers

A limit may be set by the environment, by the nearest project file and by the user's own file. What
each of them says about a limit is told here one limit at a time, from the variables and from the
documents in the files. Where a configuration loads, the highest layer that says anything about a
limit has its way, and no limit is zero. No layer hides a mistake in another one.
-/

namespace TaskVm

/-- What comes to a result has come to one before. -/
theorem except_bind_eq_ok {ε α β : Type} {x : Except ε α} {f : α → Except ε β} {b : β} :
    (x >>= f) = .ok b ↔ ∃ a, x = .ok a ∧ f a = .ok b := by
  cases x with
  | error e => exact ⟨nofun, fun ⟨_, h, _⟩ => nomatch h⟩
  | ok a => exact ⟨fun h => ⟨a, rfl, h⟩, fun ⟨_, h, hf⟩ => by cases h; exact hf⟩

/-! ## The nearest project -/

namespace Path

theorem trimEnd_suffix (cs : List String) : trimEnd cs <:+ cs := by
  fun_induction trimEnd cs with
  | case1 => exact List.suffix_refl _
  | case2 c h => exact List.nil_suffix
  | case3 c h => exact List.suffix_refl _
  | case4 c before hne h ih => exact ih.trans (List.suffix_cons c before)
  | case5 c before hne h => exact List.suffix_refl _

/-- The last component that is kept is not empty. -/
theorem ne_empty_of_trimEnd {cs before : List String} {c : String}
    (h : trimEnd cs = c :: before) : c ≠ "" := by
  fun_induction trimEnd cs with
  | case1 => cases h
  | case2 c' hempty => cases h
  | case3 c' hempty =>
    cases h
    rintro rfl
    exact hempty rfl
  | case4 c' before' hne hnothing ih => exact ih h
  | case5 c' before' hne hnothing =>
    cases h
    rintro rfl
    exact hnothing rfl

theorem intercalate_append {α : Type} (sep : List α) {xs ys : List (List α)} (hxs : xs ≠ [])
    (hys : ys ≠ []) :
    sep.intercalate (xs ++ ys) = sep.intercalate xs ++ sep ++ sep.intercalate ys := by
  induction xs with
  | nil => exact absurd rfl hxs
  | cons x xs ih =>
    cases xs with
    | nil =>
      rw [List.singleton_append, List.intercalate_cons_of_ne_nil hys, List.intercalate_singleton,
        List.append_assoc]
    | cons x' xs =>
      have hrest : x' :: xs ++ ys ≠ [] :=
        List.append_ne_nil_of_left_ne_nil (List.cons_ne_nil x' xs) ys
      rw [List.cons_append, List.intercalate_cons_of_ne_nil hrest,
        List.intercalate_cons_of_ne_nil (List.cons_ne_nil x' xs), ih (List.cons_ne_nil _ _)]
      simp only [List.append_assoc]

/-- Some components of a path from the first one on are shorter than the path. -/
theorem length_joinWith_lt {path : String} {xs ys : List String} (hxs : xs ≠ []) (hys : ys ≠ [])
    (h : components path = xs ++ ys) : (Text.joinWith "/" xs).length < path.length := by
  have hpath : path = Text.joinWith "/" (xs ++ ys) := by
    rw [← h]
    exact (Text.joinWith_split path "/").symm
  have hlist : path.toList = (Text.joinWith "/" xs).toList ++ ['/'] ++
      (Text.joinWith "/" ys).toList := by
    rw [hpath]
    simp only [Text.joinWith, String.toList_intercalate, List.map_append]
    exact intercalate_append _ (by simpa using hxs) (by simpa using hys)
  have hlength := congrArg List.length hlist
  simp only [List.length_append, List.length_singleton, String.length_toList] at hlength
  omega

/-- **The directory above has a shorter path.** -/
theorem length_parent?_lt {path above : String} (h : parent? path = some above) :
    above.length < path.length := by
  unfold parent? at h
  split at h
  · cases h
  · rename_i c before hlast
    have hne := ne_empty_of_trimEnd hlast
    obtain ⟨blank, hblank⟩ := trimEnd_suffix (components path).reverse
    obtain ⟨blank', hblank'⟩ := trimEnd_suffix before
    rw [hlast] at hblank
    split at h
    · -- The path has a component that is not empty, beside the slash if there is one.
      have hmem : c ∈ components path := by
        rw [← List.mem_reverse, ← hblank]
        simp
      have hnonempty : path ≠ "" := by
        rintro rfl
        exact hne (List.mem_singleton.mp hmem)
      have hslash : path ≠ "/" := by
        rintro rfl
        have hparts : components "/" = ["", ""] := by decide
        rw [hparts] at hmem
        exact hne (by simpa using hmem)
      cases h
      cases hpath : path.toList with
      | nil => exact absurd (String.toList_eq_nil_iff.mp hpath) hnonempty
      | cons d ds =>
        have hlength : path.length = ds.length + 1 := by
          rw [← String.length_toList, hpath, List.length_cons]
        split
        · rename_i habsolute
          have hd : d = '/' := by
            rw [isAbsolute, hpath] at habsolute
            exact Option.some.inj (beq_iff_eq.mp habsolute)
          have hds : ds ≠ [] := by
            rintro rfl
            exact hslash (String.toList_inj.mp (by rw [hpath, hd]; rfl))
          have hpos := List.length_pos_iff.mpr hds
          rw [hlength]
          exact Nat.succ_lt_succ hpos
        · rw [hlength]
          exact Nat.succ_pos _
    · rename_i rest hrest
      cases h
      have hlast : (blank ++ c :: blank').reverse ≠ [] := by simp
      refine length_joinWith_lt ?_ hlast ?_
      · simpa using hrest
      · rw [← List.reverse_append, List.append_assoc, List.cons_append, hblank', hblank,
          List.reverse_reverse]

end Path

/-- The directory of the nearest project file, from a directory upwards. -/
inductive NearestProject (files : FileTree) : String → Option String → Prop
  | here {directory : String} :
      files.exists? (Path.join directory projectFile) = true →
      NearestProject files directory (some directory)
  | above {directory above : String} {root : Option String} :
      files.exists? (Path.join directory projectFile) = false →
      Path.parent? directory = some above → NearestProject files above root →
      NearestProject files directory root
  | none {directory : String} :
      files.exists? (Path.join directory projectFile) = false →
      Path.parent? directory = Option.none → NearestProject files directory Option.none

/-- The file of a project. -/
def fileOfProject (root : Option String) : Option String :=
  root.map fun directory => Path.join directory projectFile

/-- The project in a file, and one that says nothing where there is none. -/
def loadProject (files : FileTree) (root : Option String) : Except ConfigError ProjectConfig :=
  match fileOfProject root with
  | some path => ProjectConfig.load files path
  | none => .ok {}

/-- The search comes to its end, and loads the nearest project file. -/
theorem findProject_spec (files : FileTree) {fuel : Nat} {directory : String}
    (hfuel : directory.length < fuel) :
    ∃ root, NearestProject files directory root ∧
      findProject files fuel directory = (loadProject files root).map (root, ·) := by
  induction fuel generalizing directory with
  | zero => omega
  | succ fuel ih =>
    unfold findProject
    dsimp only
    split
    · rename_i hexists
      exact ⟨some directory, .here hexists, rfl⟩
    · rename_i hexists
      have hnot := eq_false_of_ne_true hexists
      cases hparent : Path.parent? directory with
      | none => exact ⟨none, .none hnot hparent, rfl⟩
      | some above =>
        have hshorter := Path.length_parent?_lt hparent
        obtain ⟨root, hnearest, hfind⟩ := @ih above (by omega)
        exact ⟨root, .above hnot hparent hnearest, hfind⟩

/-! ## The limits one by one -/

/-- One of the four limits. -/
inductive Limit where
  | maxFrames
  | stackCapacity
  | instructionLimit
  | selectSeed
deriving DecidableEq

namespace Limit

/-- The key of a limit in files. -/
def key : Limit → String
  | maxFrames => "max_frames"
  | stackCapacity => "stack_capacity"
  | instructionLimit => "instruction_limit"
  | selectSeed => "select_seed"

/-- The environment variable of a limit. -/
def variableName : Limit → String
  | maxFrames => "SENTRA_MAX_FRAMES"
  | stackCapacity => "SENTRA_STACK_CAPACITY"
  | instructionLimit => "SENTRA_INSTRUCTION_LIMIT"
  | selectSeed => "SENTRA_SELECT_SEED"

/-- The keys in the order in which an array gives their values. -/
def keys : List String := [maxFrames.key, stackCapacity.key, instructionLimit.key, selectSeed.key]

/-- What a layer sets a limit to. -/
def of (c : RuntimeConfig) : Limit → Option Nat
  | maxFrames => c.maxFrames
  | stackCapacity => c.stackCapacity
  | instructionLimit => c.instructionLimit
  | selectSeed => c.selectSeed

end Limit

namespace RuntimeConfig

variable {c base top : RuntimeConfig} {f : Limit}

theorem of_merge : f.of (base.merge top) = (f.of top <|> f.of base) := by
  cases f <;> rfl

/-- A layer is in order if it sets no limit but the seed to zero. -/
theorem validate_eq_ok : c.validate = .ok () ↔ ∀ f : Limit, f ≠ .selectSeed → f.of c ≠ some 0 := by
  have hall : (∀ f : Limit, f ≠ .selectSeed → f.of c ≠ some 0) ↔
      c.maxFrames ≠ some 0 ∧ c.stackCapacity ≠ some 0 ∧ c.instructionLimit ≠ some 0 := by
    refine ⟨fun h => ⟨h .maxFrames nofun, h .stackCapacity nofun, h .instructionLimit nofun⟩, ?_⟩
    rintro ⟨hframes, hstack, hlimit⟩ (_ | _ | _ | _) hf
    · exact hframes
    · exact hstack
    · exact hlimit
    · exact absurd rfl hf
  rw [hall, validate]
  split
  · simp [*]
  · split
    · simp [*]
    · split <;> simp [*]

end RuntimeConfig

/-! ## Files -/

namespace Toml

/-- The value of a key in a section, which is a table or an array of the values in order. -/
def item? (keys : List String) (key : String) : Toml → Option Toml
  | table _ entries => entries.lookup key
  | array items => items[keys.idxOf key]?
  | _ => none

/-- What a document says about a limit, its own sections being named. -/
def limitItem? (sections : List String) (f : Limit) (document : Toml) : Option Toml :=
  (document.item? sections "runtime").bind (item? Limit.keys f.key)

theorem section?_eq_some {keys : List String} {t : Toml} {values : List (Option Toml)}
    (hkeys : keys.Nodup) (h : section? keys t = some values) :
    values = keys.map fun k => t.item? keys k := by
  unfold section? at h
  split at h
  · split at h
    · exact (Option.some.inj h).symm
    · cases h
  · rename_i items
    split at h
    · rename_i hle
      obtain rfl := Option.some.inj h
      refine List.ext_getElem (by simpa using hle) fun i hi hi' => ?_
      simp only [List.length_map] at hi'
      simp only [List.getElem_map, List.getElem_take, item?, hkeys.idxOf_getElem]
      exact (List.getElem?_eq_getElem (by omega)).symm
    · cases h
  · cases h

/-- What may be left out is right, or it is not there. -/
theorem optional?_eq_some {α : Type} {read : Toml → Option α} {entry : Option Toml} {v : Option α}
    (h : optional? read entry = some v) :
    (entry = none ∧ v = none) ∨ ∃ t a, entry = some t ∧ v = some a ∧ read t = some a := by
  cases entry with
  | none => exact .inl ⟨rfl, (Option.some.inj h).symm⟩
  | some t =>
    obtain ⟨a, ha, rfl⟩ := Option.map_eq_some_iff.mp h
    exact .inr ⟨t, a, rfl, rfl, ha⟩

theorem limit?_eq_some {t : Toml} {n : Nat} : t.limit? = some n ↔ t = .integer n := by
  constructor
  · intro h
    cases t with
    | integer i =>
      obtain ⟨hpos, hn⟩ := Option.ite_none_right_eq_some.mp h
      rw [← Option.some.inj hn, Int.toNat_of_nonneg hpos]
    | _ => cases h
  · rintro rfl
    exact Option.ite_none_right_eq_some.mpr ⟨Int.natCast_nonneg n, rfl⟩

end Toml

open Toml

/-- A section of limits is read entry by entry. -/
theorem RuntimeConfig.ofToml?_eq_some {t : Toml} {c : RuntimeConfig}
    (h : RuntimeConfig.ofToml? t = some c) (f : Limit) :
    optional? limit? (t.item? Limit.keys f.key) = some (f.of c) := by
  unfold RuntimeConfig.ofToml? at h
  obtain ⟨values, hvalues, h⟩ := Option.bind_eq_some_iff.mp h
  obtain rfl := section?_eq_some (by decide) hvalues
  obtain ⟨frames, hframes, h⟩ := Option.bind_eq_some_iff.mp h
  obtain ⟨stack, hstack, h⟩ := Option.bind_eq_some_iff.mp h
  obtain ⟨limit, hlimit, h⟩ := Option.bind_eq_some_iff.mp h
  obtain ⟨seed, hseed, h⟩ := Option.bind_eq_some_iff.mp h
  cases h
  cases f with
  | maxFrames => exact hframes
  | stackCapacity => exact hstack
  | instructionLimit => exact hlimit
  | selectSeed => exact hseed

/-- The sections of a project file. -/
def ProjectConfig.sections : List String := ["package", "runtime", "debug"]

/-- The sections of a user's own file. -/
def GlobalConfig.sections : List String := ["runtime"]

/-- A document is read for the limits in it. -/
def ReadsLimits {α : Type} (sections : List String) (decode : Toml → Option α)
    (runtime : α → Option RuntimeConfig) : Prop :=
  ∀ document a, decode document = some a →
    optional? RuntimeConfig.ofToml? (document.item? sections "runtime") = some (runtime a)

theorem ProjectConfig.readsLimits :
    ReadsLimits sections ProjectConfig.ofToml? ProjectConfig.runtime := by
  intro t p h
  unfold ProjectConfig.ofToml? at h
  obtain ⟨values, hvalues, h⟩ := Option.bind_eq_some_iff.mp h
  obtain rfl := section?_eq_some (by decide) hvalues
  obtain ⟨package, -, h⟩ := Option.bind_eq_some_iff.mp h
  obtain ⟨runtime, hruntime, h⟩ := Option.bind_eq_some_iff.mp h
  obtain ⟨debug, -, h⟩ := Option.bind_eq_some_iff.mp h
  cases h
  exact hruntime

theorem GlobalConfig.readsLimits :
    ReadsLimits sections GlobalConfig.ofToml? GlobalConfig.runtime := by
  intro t g h
  unfold GlobalConfig.ofToml? at h
  obtain ⟨values, hvalues, h⟩ := Option.bind_eq_some_iff.mp h
  obtain rfl := section?_eq_some (by decide) hvalues
  obtain ⟨runtime, hruntime, h⟩ := Option.bind_eq_some_iff.mp h
  cases h
  exact hruntime

theorem Limit.of_empty (f : Limit) : f.of {} = none := by cases f <;> rfl

/-- The limits that are read are those that the document has. -/
theorem limitItem?_cases {sections : List String} {document : Toml}
    {runtime : Option RuntimeConfig}
    (h : optional? RuntimeConfig.ofToml? (document.item? sections "runtime") = some runtime)
    (f : Limit) :
    (document.limitItem? sections f = none ∧ f.of (runtime.getD {}) = none) ∨
      ∃ n : Nat, document.limitItem? sections f = some (.integer n) ∧
        f.of (runtime.getD {}) = some n := by
  unfold limitItem?
  obtain ⟨hsection, rfl⟩ | ⟨t, c, hsection, rfl, hc⟩ := optional?_eq_some h
  · exact .inl ⟨by rw [hsection, Option.bind_none], f.of_empty⟩
  · rw [hsection, Option.bind_some, Option.getD_some]
    obtain ⟨hentry, hnone⟩ | ⟨t', n, hentry, hsome, ht'⟩ :=
      optional?_eq_some (RuntimeConfig.ofToml?_eq_some hc f)
    · exact .inl ⟨hentry, hnone⟩
    · exact .inr ⟨n, by rw [hentry, limit?_eq_some.mp ht'], hsome⟩

/-- A path leads to a file whose bytes are a text, and that text is a document. -/
def FileTree.HasDocument (files : FileTree) (path : String) (document : Toml) : Prop :=
  ∃ content text, files.lookup path = .file content ∧
    String.fromUTF8? ⟨content.toArray⟩ = some text ∧ Toml.read? text = some document

theorem readToml_eq_ok {files : FileTree} {path : String} {document : Toml} :
    readToml files path = .ok document ↔ files.HasDocument path document := by
  constructor
  · intro h
    unfold readToml at h
    split at h
    · cases h
    · cases h
    · cases h
    · rename_i content hfile
      split at h
      · cases h
      · rename_i text htext
        split at h
        · rename_i t hread
          cases h
          exact ⟨content, text, hfile, htext, hread⟩
        · cases h
  · rintro ⟨content, text, hfile, htext, hread⟩
    simp only [readToml, hfile, htext, hread]

/-- What a file says about a limit: nothing if there is no file or no such entry in it. -/
inductive FileSays (files : FileTree) (sections : List String) (f : Limit) :
    Option String → Option Nat → Prop
  | absent : FileSays files sections f none none
  | silent {path : String} {document : Toml} : files.HasDocument path document →
      document.limitItem? sections f = none → FileSays files sections f (some path) none
  | sets {path : String} {document : Toml} {n : Nat} : files.HasDocument path document →
      document.limitItem? sections f = some (.integer n) →
      FileSays files sections f (some path) (some n)

/-- There is one document in a file at most. -/
theorem FileTree.HasDocument.unique {files : FileTree} {path : String} {d d' : Toml}
    (h : files.HasDocument path d) (h' : files.HasDocument path d') : d = d' :=
  Except.ok.inj ((readToml_eq_ok.mpr h).symm.trans (readToml_eq_ok.mpr h'))

/-- A file says one thing only. -/
theorem FileSays.unique {files : FileTree} {sections : List String} {f : Limit}
    {path : Option String} {v w : Option Nat} (hv : FileSays files sections f path v)
    (hw : FileSays files sections f path w) : v = w := by
  cases hv with
  | absent => cases hw; rfl
  | silent hread hentry =>
    cases hw with
    | silent => rfl
    | sets hread' hentry' =>
      cases hread.unique hread'
      cases hentry.symm.trans hentry'
  | sets hread hentry =>
    cases hw with
    | silent hread' hentry' =>
      cases hread.unique hread'
      cases hentry.symm.trans hentry'
    | sets hread' hentry' =>
      cases hread.unique hread'
      have heq := Option.some.inj (hentry.symm.trans hentry')
      rw [Int.ofNat.inj (Toml.integer.inj heq)]

/-- **A layer from a file has the limits that the file sets, and none of them is zero.** -/
theorem readConfig_tells {α : Type} {sections : List String} {decode : Toml → Option α}
    {validate : α → Except ConfigError Unit} {runtime : α → Option RuntimeConfig}
    (hdecode : ReadsLimits sections decode runtime)
    (hvalidate : ∀ a, validate a = .ok () → (runtime a).forM RuntimeConfig.validate = .ok ())
    {files : FileTree} {path : String} {a : α}
    (h : readConfig decode validate files path = .ok a) (f : Limit) :
    FileSays files sections f (some path) (f.of ((runtime a).getD {})) ∧
      (f ≠ .selectSeed → f.of ((runtime a).getD {}) ≠ some 0) := by
  obtain ⟨document, hread, h⟩ := except_bind_eq_ok.mp h
  have hdoc := readToml_eq_ok.mp hread
  cases hdocument : decode document with
  | none => rw [hdocument] at h; cases h
  | some a' =>
    rw [hdocument] at h
    obtain ⟨_, hvalid, h⟩ := except_bind_eq_ok.mp h
    cases h
    constructor
    · obtain ⟨hentry, hnone⟩ | ⟨n, hentry, hsome⟩ :=
        limitItem?_cases (hdecode document a hdocument) f
      · rw [hnone]
        exact .silent hdoc hentry
      · rw [hsome]
        exact .sets hdoc hentry
    · have hlimits := hvalidate a hvalid
      cases hruntime : runtime a with
      | none =>
        rw [Option.getD_none, f.of_empty]
        exact fun _ => nofun
      | some c =>
        rw [hruntime] at hlimits
        exact RuntimeConfig.validate_eq_ok.mp hlimits f

/-! ## Variables -/

/-- A text of digits that stand for a number of 64 bits, a plus sign before them or not. -/
def IsWord (text : List Char) (n : Nat) : Prop :=
  ∃ digits : List Char, (text = digits ∨ text = '+' :: digits) ∧ digits ≠ [] ∧
    (∀ c ∈ digits, c.isDigit = true) ∧ Nat.ofDigitChars 10 digits 0 = n ∧ n < UInt64.size

theorem parseWord?_eq_some {text : String} {n : Nat} :
    parseWord? text = some n ↔ IsWord text.toList n := by
  have hdigits : ∀ digits : List Char,
      (if !digits.isEmpty && digits.all Char.isDigit &&
          Nat.ofDigitChars 10 digits 0 < 0x10000000000000000
        then some (Nat.ofDigitChars 10 digits 0) else none) = some n ↔
      digits ≠ [] ∧ (∀ c ∈ digits, c.isDigit = true) ∧ Nat.ofDigitChars 10 digits 0 = n ∧
        n < UInt64.size := by
    intro digits
    rw [Option.ite_none_right_eq_some]
    simp only [Bool.and_eq_true, Bool.not_eq_true', List.isEmpty_eq_false_iff, List.all_eq_true,
      decide_eq_true_eq, Option.some.injEq]
    constructor
    · rintro ⟨⟨⟨hne, hall⟩, hlt⟩, rfl⟩
      exact ⟨hne, hall, rfl, hlt⟩
    · rintro ⟨hne, hall, rfl, hlt⟩
      exact ⟨⟨⟨hne, hall⟩, hlt⟩, rfl⟩
  unfold parseWord? IsWord
  dsimp only
  split
  · rename_i rest htext
    rw [htext]
    refine (hdigits rest).trans ⟨fun h => ⟨rest, .inr rfl, h⟩, ?_⟩
    rintro ⟨digits, rfl | hplus, hne, hall, h⟩
    · exact absurd (hall '+' List.mem_cons_self) (by decide)
    · cases hplus
      exact ⟨hne, hall, h⟩
  · rename_i hplus
    refine (hdigits _).trans ⟨fun h => ⟨_, .inl rfl, h⟩, ?_⟩
    rintro ⟨digits, rfl | htext, h⟩
    · exact h
    · exact absurd htext (hplus digits)

/-- What the environment says about a limit, blanks around it left out. -/
inductive VariableSays (bindings : List (String × String)) (f : Limit) : Option Nat → Prop
  | silent : bindings.lookup f.variableName = none → VariableSays bindings f none
  | sets {value : String} {n : Nat} : bindings.lookup f.variableName = some value →
      IsWord (Text.trim value).toList n → VariableSays bindings f (some n)

theorem VariableSays.unique {bindings : List (String × String)} {f : Limit} {v w : Option Nat}
    (hv : VariableSays bindings f v) (hw : VariableSays bindings f w) : v = w := by
  cases hv with
  | silent hvalue =>
    cases hw with
    | silent => rfl
    | sets hvalue' => cases hvalue.symm.trans hvalue'
  | sets hvalue hword =>
    cases hw with
    | silent hvalue' => cases hvalue.symm.trans hvalue'
    | sets hvalue' hword' =>
      cases hvalue.symm.trans hvalue'
      exact (parseWord?_eq_some.mpr hword).symm.trans (parseWord?_eq_some.mpr hword')

theorem variableLimit_tells {bindings : List (String × String)} {f : Limit} {v : Option Nat}
    (h : variableLimit bindings f.variableName = .ok v) : VariableSays bindings f v := by
  unfold variableLimit at h
  split at h
  · cases h
    exact .silent ‹_›
  · split at h
    · cases h
      exact .sets ‹_› (parseWord?_eq_some.mp ‹_›)
    · cases h

/-- **The layer of the environment has the limits of the variables, and none of them is zero.** -/
theorem ofEnvironment_tells {bindings : List (String × String)} {c : RuntimeConfig}
    (h : RuntimeConfig.ofEnvironment bindings = .ok c) (f : Limit) :
    VariableSays bindings f (f.of c) ∧ (f ≠ .selectSeed → f.of c ≠ some 0) := by
  obtain ⟨frames, hframes, h⟩ := except_bind_eq_ok.mp h
  obtain ⟨stack, hstack, h⟩ := except_bind_eq_ok.mp h
  obtain ⟨limit, hlimit, h⟩ := except_bind_eq_ok.mp h
  obtain ⟨seed, hseed, h⟩ := except_bind_eq_ok.mp h
  obtain ⟨_, hvalid, h⟩ := except_bind_eq_ok.mp h
  cases h
  refine ⟨?_, RuntimeConfig.validate_eq_ok.mp hvalid f⟩
  cases f with
  | maxFrames => exact variableLimit_tells hframes
  | stackCapacity => exact variableLimit_tells hstack
  | instructionLimit => exact variableLimit_tells hlimit
  | selectSeed => exact variableLimit_tells hseed

/-! ## All layers -/

/-- The user's own file, if there is one. -/
def ConfigLoader.ownFile (l : ConfigLoader) (s : Surroundings) : Option String :=
  (l.globalPath <|> s.home.map ConfigLoader.pathInHome).filter fun path => s.files.exists? path

theorem loadGlobal_tells {l : ConfigLoader} {s : Surroundings} {g : GlobalConfig}
    (h : l.loadGlobal s = .ok g) (f : Limit) :
    FileSays s.files GlobalConfig.sections f (l.ownFile s) (f.of (g.runtime.getD {})) ∧
      (f ≠ .selectSeed → f.of (g.runtime.getD {}) ≠ some 0) := by
  have hnone : FileSays s.files GlobalConfig.sections f none (f.of {}) ∧
      (f ≠ .selectSeed → f.of {} ≠ some 0) := by
    rw [f.of_empty]
    exact ⟨.absent, fun _ => nofun⟩
  unfold ConfigLoader.loadGlobal at h
  unfold ConfigLoader.ownFile
  cases hpath : l.globalPath <|> s.home.map ConfigLoader.pathInHome with
  | none =>
    rw [hpath] at h
    cases h
    exact hnone
  | some path =>
    rw [hpath] at h
    cases hexists : s.files.exists? path with
    | false =>
      simp only [hexists, Bool.false_eq_true, if_false] at h
      cases h
      rw [Option.filter_some_neg (by rw [hexists])]
      exact hnone
    | true =>
      simp only [hexists, if_true] at h
      rw [Option.filter_some_pos hexists]
      exact readConfig_tells GlobalConfig.readsLimits (fun _ h => h) h f

theorem loadProject_tells {files : FileTree} {root : Option String} {p : ProjectConfig}
    (h : loadProject files root = .ok p) (f : Limit) :
    FileSays files ProjectConfig.sections f (fileOfProject root) (f.of (p.runtime.getD {})) ∧
      (f ≠ .selectSeed → f.of (p.runtime.getD {}) ≠ some 0) := by
  unfold loadProject at h
  cases hpath : fileOfProject root with
  | none =>
    rw [hpath] at h
    cases h
    change FileSays files ProjectConfig.sections f none (f.of {}) ∧
      (f ≠ .selectSeed → f.of {} ≠ some 0)
    rw [f.of_empty]
    exact ⟨.absent, fun _ => nofun⟩
  | some path =>
    rw [hpath] at h
    refine readConfig_tells ProjectConfig.readsLimits (fun p hp => ?_) h f
    obtain ⟨_, -, hruntime⟩ := except_bind_eq_ok.mp hp
    exact hruntime

/-- **The highest layer has its way.** -/
theorem loadFromDirectory_tells {l : ConfigLoader} {s : Surroundings} {directory : String}
    {root : Option String} {c : Config}
    (hfind : findProject s.files (directory.length + 1) directory =
      (loadProject s.files root).map (root, ·))
    (h : l.loadFromDirectory s directory = .ok c) (f : Limit) :
    ∃ environment project own : Option Nat, VariableSays s.environment f environment ∧
      FileSays s.files ProjectConfig.sections f (fileOfProject root) project ∧
      FileSays s.files GlobalConfig.sections f (l.ownFile s) own ∧
      f.of c.runtime = (environment <|> project <|> own) ∧
      (f ≠ .selectSeed → environment ≠ some 0 ∧ project ≠ some 0 ∧ own ≠ some 0) := by
  obtain ⟨⟨root', project⟩, hproject, h⟩ := except_bind_eq_ok.mp h
  obtain ⟨own, hown, h⟩ := except_bind_eq_ok.mp h
  obtain ⟨environment, henvironment, h⟩ := except_bind_eq_ok.mp h
  cases h
  rw [hfind] at hproject
  have hload : loadProject s.files root = .ok project := by
    cases hload : loadProject s.files root with
    | error e => rw [hload] at hproject; cases hproject
    | ok p => rw [hload] at hproject; cases hproject; rfl
  obtain ⟨htells, hnonzero⟩ := ofEnvironment_tells henvironment f
  obtain ⟨htells', hnonzero'⟩ := loadProject_tells hload f
  obtain ⟨htells'', hnonzero''⟩ := loadGlobal_tells hown f
  refine ⟨_, _, _, htells, htells', htells'', ?_,
    fun hf => ⟨hnonzero hf, hnonzero' hf, hnonzero'' hf⟩⟩
  rw [Config.runtime, RuntimeConfig.of_merge, RuntimeConfig.of_merge]

/-- The limits of a machine are not zero if those of the layers are not. -/
theorem VmConfig.ofRuntime_ne_zero {c : RuntimeConfig}
    (h : ∀ f : Limit, f ≠ .selectSeed → f.of c ≠ some 0) :
    (VmConfig.ofRuntime c).maxFrames ≠ 0 ∧ (VmConfig.ofRuntime c).stackCapacity ≠ 0 ∧
      ∃ n ≠ 0, (VmConfig.ofRuntime c).instructionLimit = some n := by
  have hframes : c.maxFrames ≠ some 0 := h .maxFrames nofun
  have hstack : c.stackCapacity ≠ some 0 := h .stackCapacity nofun
  have hlimit : c.instructionLimit ≠ some 0 := h .instructionLimit nofun
  refine ⟨?_, ?_, ?_⟩
  · unfold VmConfig.ofRuntime
    cases hc : c.maxFrames with
    | none => exact (by decide : (1024 : Nat) ≠ 0)
    | some n => exact fun hn => hframes (hc.trans (congrArg some hn))
  · unfold VmConfig.ofRuntime
    cases hc : c.stackCapacity with
    | none => exact (by decide : (65536 : Nat) ≠ 0)
    | some n => exact fun hn => hstack (hc.trans (congrArg some hn))
  · unfold VmConfig.ofRuntime
    cases hc : c.instructionLimit with
    | none => exact ⟨100000000, by decide, rfl⟩
    | some n => exact ⟨n, fun hn => hlimit (hc.trans (congrArg some hn)), rfl⟩

/-- **The highest layer that sets a limit has its way, and no limit is zero.** Whatever is in the
files and in the environment: where the configuration of a directory loads, each limit is what its
variable says, or else the nearest project file, or else the user's own file, and the limits of a
machine that is made from it are not zero. Where any of the three sets a limit to zero, or where a
variable is not a number, nothing is loaded, whatever the others say. -/
theorem limits_in_force (l : ConfigLoader) (s : Surroundings) (directory : String) :
    ∃ root, NearestProject s.files directory root ∧
      (∀ c, l.loadFromDirectory s directory = .ok c →
        (∀ f : Limit, ∃ environment project own : Option Nat,
          VariableSays s.environment f environment ∧
          FileSays s.files ProjectConfig.sections f (fileOfProject root) project ∧
          FileSays s.files GlobalConfig.sections f (l.ownFile s) own ∧
          f.of c.runtime = (environment <|> project <|> own)) ∧
        (VmConfig.ofRuntime c.runtime).maxFrames ≠ 0 ∧
        (VmConfig.ofRuntime c.runtime).stackCapacity ≠ 0 ∧
        ∃ n ≠ 0, (VmConfig.ofRuntime c.runtime).instructionLimit = some n) ∧
      ∀ f : Limit,
        (f ≠ .selectSeed ∧ (VariableSays s.environment f (some 0) ∨
          FileSays s.files ProjectConfig.sections f (fileOfProject root) (some 0) ∨
          FileSays s.files GlobalConfig.sections f (l.ownFile s) (some 0))) ∨
        (∃ value, s.environment.lookup f.variableName = some value ∧
          ∀ n, ¬ IsWord (Text.trim value).toList n) →
        ∃ e, l.loadFromDirectory s directory = .error e := by
  obtain ⟨root, hroot, hfind⟩ := findProject_spec s.files (Nat.lt_succ_self directory.length)
  refine ⟨root, hroot, fun c hload => ?_, fun f hmistake => ?_⟩
  · refine ⟨fun f => ?_, VmConfig.ofRuntime_ne_zero fun f hf => ?_⟩
    · obtain ⟨environment, project, own, he, hp, ho, hof, -⟩ :=
        loadFromDirectory_tells hfind hload f
      exact ⟨environment, project, own, he, hp, ho, hof⟩
    · obtain ⟨environment, project, own, -, -, -, hof, hnonzero⟩ :=
        loadFromDirectory_tells hfind hload f
      obtain ⟨he, hp, ho⟩ := hnonzero hf
      rw [hof]
      cases environment with
      | some n => exact he
      | none =>
        cases project with
        | some n => exact hp
        | none => exact ho
  -- A mistake in one layer is an error even where another layer overrides it: had the load
  -- succeeded, each layer would have told something well-formed.
  · cases hload : l.loadFromDirectory s directory with
    | error e => exact ⟨e, rfl⟩
    | ok c =>
      exfalso
      obtain ⟨environment, project, own, he, hp, ho, -, hnonzero⟩ :=
        loadFromDirectory_tells hfind hload f
      rcases hmistake with ⟨hf, hzero⟩ | ⟨value, hvalue, hnot⟩
      · obtain ⟨he', hp', ho'⟩ := hnonzero hf
        rcases hzero with hzero | hzero | hzero
        · exact he' (he.unique hzero)
        · exact hp' (hp.unique hzero)
        · exact ho' (ho.unique hzero)
      · cases he with
        | silent hvalue' => cases hvalue.symm.trans hvalue'
        | sets hvalue' hword =>
          cases hvalue.symm.trans hvalue'
          exact hnot _ hword

/-- The user's own file sets three limits, the first as given; the file of a project sets two of
them, and a variable sets the first. -/
def layered (frames : String) : Surroundings where
  files := {
    files := [
      (["me", ".sentra", "config.toml"], ("[runtime]\nmax_frames = " ++ frames ++
        "\nstack_capacity = 20\ninstruction_limit = 30\n").toUTF8.toList),
      (["work", projectFile],
        "[runtime]\nmax_frames = 11\nstack_capacity = 21\n".toUTF8.toList)]
    directories := [["work", "src"]] }
  environment := [("SENTRA_MAX_FRAMES", " 12 ")]
  home := some "/me"

/-- One limit comes from each layer. A zero in the lowest is an error although both others
override it. -/
theorem layered_in_force :
    (∃ c, ({} : ConfigLoader).loadFromDirectory (layered "10") "/work/src" = .ok c ∧
      c.runtime = { maxFrames := some 12, stackCapacity := some 21, instructionLimit := some 30 } ∧
      ∃ root, ∀ f : Limit, ∃ environment project own : Option Nat,
        VariableSays (layered "10").environment f environment ∧
        FileSays (layered "10").files ProjectConfig.sections f (fileOfProject root) project ∧
        FileSays (layered "10").files GlobalConfig.sections f
          (({} : ConfigLoader).ownFile (layered "10")) own ∧
        f.of c.runtime = (environment <|> project <|> own)) ∧
    ∃ e, ({} : ConfigLoader).loadFromDirectory (layered "0") "/work/src" = .error e := by
  constructor
  · let c : Config := {
      project := { runtime := some { maxFrames := some 11, stackCapacity := some 21 } }
      global := {
        runtime := some {
          maxFrames := some 10
          stackCapacity := some 20
          instructionLimit := some 30 } }
      environment := { maxFrames := some 12 }
      root := some "/work" }
    have hload : ({} : ConfigLoader).loadFromDirectory (layered "10") "/work/src" = .ok c := by
      decide +kernel
    obtain ⟨root, -, hloads, -⟩ := limits_in_force {} (layered "10") "/work/src"
    exact ⟨c, hload, by decide, root, (hloads c hload).1⟩
  · -- Reading the user's own file alone shows the zero.
    have hzero : ((readToml (layered "0").files "/me/.sentra/config.toml").toOption.bind fun d =>
        (d.limitItem? GlobalConfig.sections .maxFrames).bind Toml.limit?) = some 0 := by
      decide +kernel
    have hown : ({} : ConfigLoader).ownFile (layered "0") = some "/me/.sentra/config.toml" := by
      decide +kernel
    obtain ⟨root, -, -, hfails⟩ := limits_in_force {} (layered "0") "/work/src"
    refine hfails .maxFrames (.inl ⟨nofun, .inr (.inr ?_)⟩)
    rw [hown]
    cases hread : readToml (layered "0").files "/me/.sentra/config.toml" with
    | error e =>
      rw [hread] at hzero
      cases hzero
    | ok document =>
      rw [hread, Except.toOption, Option.bind_some] at hzero
      obtain ⟨t, hentry, ht⟩ := Option.bind_eq_some_iff.mp hzero
      rw [limit?_eq_some.mp ht] at hentry
      exact .sets (readToml_eq_ok.mp hread) hentry

end TaskVm
