import TaskVm.Config.OfToml
import TaskVm.FileTree
import TaskVm.Text.Blank
import TaskVm.Toml.Reader

/-!
# Loading configuration

Configuration comes in three layers. The user's own file is the lowest, the project file is
on top of it, and environment variables are on top of both. The project file is looked for
in a directory and in those above it. Each layer is checked by itself, so a limit of zero is
an error also where a higher layer would override it.
-/

namespace TaskVm

/-- The name of project files. -/
def projectFile : String := "sentra.toml"

/-- Where configuration is loaded from. -/
structure Surroundings where
  files : FileTree := {}
  /-- The environment variables. -/
  environment : List (String × String) := []
  /-- The user's home directory. -/
  home : Option String := none
deriving Inhabited

/-- All layers. -/
structure Config where
  project : ProjectConfig := {}
  global : GlobalConfig := {}
  environment : RuntimeConfig := {}
  /-- The directory of the project file. -/
  root : Option String := none
deriving DecidableEq, Inhabited

namespace Config

/-- The limits that are in force. -/
def runtime (c : Config) : RuntimeConfig :=
  ((c.global.runtime.getD {}).merge (c.project.runtime.getD {})).merge c.environment

/-- A project file was found. -/
def isProject (c : Config) : Bool := c.root.isSome

end Config

/-! ### Files -/

/-- The document of a file. -/
def readToml (files : FileTree) (path : String) : Except ConfigError Toml :=
  match files.lookup path with
  | .nothing => .error (.notFound path)
  | .directory | .blocked => .error (.unreadable path)
  | .file content =>
    match String.fromUTF8? ⟨content.toArray⟩ with
    | none => .error (.unreadable path)
    | some text =>
      match Toml.read? text with
      | some t => .ok t
      | none => .error (.malformed path)

/-- Read a document for what it says, and check that. -/
def readConfig {α : Type} (decode : Toml → Option α) (validate : α → Except ConfigError Unit)
    (files : FileTree) (path : String) : Except ConfigError α := do
  match decode (← readToml files path) with
  | some c =>
    validate c
    .ok c
  | none => .error (.malformed path)

/-- The project of a file. -/
def ProjectConfig.load : FileTree → String → Except ConfigError ProjectConfig :=
  readConfig ofToml? validate

/-- The user's configuration, from a file. -/
def GlobalConfig.load : FileTree → String → Except ConfigError GlobalConfig :=
  readConfig ofToml? validate

/-- The nearest project file, in a directory or above it, with the directory it is in. -/
def findProject (files : FileTree) : (fuel : Nat) → (directory : String) →
    Except ConfigError (Option String × ProjectConfig)
  | 0, _ => .ok (none, {})
  | fuel + 1, directory =>
    let path := Path.join directory projectFile
    if files.exists? path then (ProjectConfig.load files path).map (some directory, ·)
    else
      match Path.parent? directory with
      | some parent => findProject files fuel parent
      | none => .ok (none, {})

/-! ### Environment variables -/

/-- An unsigned word in decimal digits, a plus sign allowed before them. -/
def parseWord? (text : String) : Option Nat :=
  let digits := match text.toList with
    | '+' :: rest => rest
    | cs => cs
  let n := digits.foldl (fun n c => 10 * n + (c.toNat - '0'.toNat)) 0
  if !digits.isEmpty && digits.all Char.isDigit && n < 0x10000000000000000 then some n else none

/-- The limit of a variable, blanks around it left out. -/
def variableLimit (bindings : List (String × String)) (name : String) :
    Except ConfigError (Option Nat) :=
  match bindings.lookup name with
  | none => .ok none
  | some value =>
    match parseWord? (Text.trim value) with
    | some n => .ok (some n)
    | none => .error (.invalidEnvironment name value "expected an unsigned integer")

/-- The limits of the environment. -/
def RuntimeConfig.ofEnvironment (bindings : List (String × String)) :
    Except ConfigError RuntimeConfig := do
  let c : RuntimeConfig := {
    maxFrames := ← variableLimit bindings "SENTRA_MAX_FRAMES"
    stackCapacity := ← variableLimit bindings "SENTRA_STACK_CAPACITY"
    instructionLimit := ← variableLimit bindings "SENTRA_INSTRUCTION_LIMIT"
    selectSeed := ← variableLimit bindings "SENTRA_SELECT_SEED" }
  c.validate
  .ok c

/-! ### Layers -/

/-- Loads configuration, with the user's file at a given path or in the home directory. -/
structure ConfigLoader where
  globalPath : Option String := none

namespace ConfigLoader

/-- Where the user's file is in a home directory. -/
def pathInHome (home : String) : String := Path.join (Path.join home ".sentra") "config.toml"

/-- The user's configuration; where there is no file, it says nothing. -/
def loadGlobal (l : ConfigLoader) (s : Surroundings) : Except ConfigError GlobalConfig :=
  match l.globalPath <|> s.home.map pathInHome with
  | some path => if s.files.exists? path then GlobalConfig.load s.files path else .ok {}
  | none => .ok {}

/-- The lower layer and the higher one, around a project. -/
def around (l : ConfigLoader) (s : Surroundings) (root : Option String)
    (project : ProjectConfig) : Except ConfigError Config := do
  let global ← l.loadGlobal s
  let environment ← RuntimeConfig.ofEnvironment s.environment
  .ok { project, global, environment, root }

/-- Load what holds in a directory. -/
def loadFromDirectory (l : ConfigLoader) (s : Surroundings) (directory : String) :
    Except ConfigError Config := do
  let (root, project) ← findProject s.files (directory.length + 1) directory
  l.around s root project

/-- Load a project file that is named. -/
def loadFromFile (l : ConfigLoader) (s : Surroundings) (path : String) :
    Except ConfigError Config := do
  let project ← ProjectConfig.load s.files path
  l.around s (Path.parent? path) project

end ConfigLoader

end TaskVm
