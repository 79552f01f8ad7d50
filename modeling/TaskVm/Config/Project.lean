import TaskVm.Config.Runtime
import TaskVm.Text.Split

/-!
# Project and user configuration

What a project file and the user's own file say. A project names itself and its version,
sets limits and says how it is debugged; the user's file sets limits only.
-/

namespace TaskVm

/-- The package a project is. -/
structure PackageConfig where
  name : String
  version : String
  description : Option String := none
deriving DecidableEq, Inhabited

/-- How a project is debugged. -/
structure DebugConfig where
  /-- The name of the source file that debuggers are told. -/
  sourceName : Option String := none
  /-- Whether instructions are counted. -/
  profile : Option Bool := none
deriving DecidableEq, Inhabited

/-- A project file. -/
structure ProjectConfig where
  package : Option PackageConfig := none
  runtime : Option RuntimeConfig := none
  debug : Option DebugConfig := none
deriving DecidableEq, Inhabited

/-- The user's own file. -/
structure GlobalConfig where
  runtime : Option RuntimeConfig := none
deriving DecidableEq, Inhabited

/-- A version is two or three numbers with dots between them; what follows a hyphen or a
plus does not matter. -/
def isVersion (version : String) : Bool :=
  let numbers := Text.splitOn ['.'] (version.toList.takeWhile fun c => c != '-' && c != '+')
  (numbers.length == 2 || numbers.length == 3) &&
    numbers.all fun n => !n.isEmpty && n.all Char.isDigit

/-- A package has a name and a version. -/
def PackageConfig.validate (p : PackageConfig) : Except ConfigError Unit :=
  if p.name.isEmpty then .error (.invalidValue "package.name" "name cannot be empty")
  else if isVersion p.version then .ok ()
  else .error (.invalidValue "package.version" ("invalid version '" ++ p.version ++ "'"))

namespace ProjectConfig

/-- The package first, then the limits. -/
def validate (p : ProjectConfig) : Except ConfigError Unit := do
  p.package.forM PackageConfig.validate
  p.runtime.forM RuntimeConfig.validate

/-- The name of the package. -/
def packageName (p : ProjectConfig) : Option String := p.package.map (·.name)

/-- Whether instructions are to be counted. -/
def profileEnabled (p : ProjectConfig) : Bool := (p.debug.bind (·.profile)).getD false

end ProjectConfig

/-- The limits have to be in order. -/
def GlobalConfig.validate (g : GlobalConfig) : Except ConfigError Unit :=
  g.runtime.forM RuntimeConfig.validate

end TaskVm
