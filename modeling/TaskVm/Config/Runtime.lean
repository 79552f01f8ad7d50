/-!
# Runtime limits

The limits as a configuration layer writes them down, each of them set or not, and how
layers are put on top of each other.
-/

namespace TaskVm

/-- Why a configuration could not be had. -/
inductive ConfigError where
  /-- There is no such file. -/
  | notFound (path : String)
  /-- The file cannot be read as text. -/
  | unreadable (path : String)
  /-- The file is not what a configuration looks like. -/
  | malformed (path : String)
  | invalidValue (field reason : String)
  | invalidEnvironment (name value reason : String)
  /-- There is no home directory. -/
  | homeNotFound
deriving DecidableEq, Inhabited

namespace ConfigError

/-- The name of the kind of error. -/
def kind : ConfigError → String
  | notFound _ => "NotFound"
  | unreadable _ => "IoError"
  | malformed _ => "TomlParseError"
  | invalidValue _ _ => "InvalidValue"
  | invalidEnvironment _ _ _ => "InvalidEnv"
  | homeNotFound => "HomeNotFound"

/-- The error in words. -/
def message : ConfigError → String
  | notFound path => "Configuration file not found: " ++ path
  | unreadable path => "Failed to read configuration file: " ++ path
  | malformed path => "Invalid TOML syntax in " ++ path
  | invalidValue field reason => "Invalid value for '" ++ field ++ "': " ++ reason
  | invalidEnvironment name value reason =>
    "Invalid environment variable " ++ name ++ "=" ++ value ++ ": " ++ reason
  | homeNotFound => "Home directory not found"

end ConfigError

/-- One layer of limits. -/
structure RuntimeConfig where
  maxFrames : Option Nat := none
  stackCapacity : Option Nat := none
  instructionLimit : Option Nat := none
  selectSeed : Option Nat := none
deriving DecidableEq, Inhabited

namespace RuntimeConfig

/-- A limit of zero. -/
def zeroError (field : String) : ConfigError := .invalidValue field "must be greater than zero"

/-- Limits must not be zero; a seed may. -/
def validate (c : RuntimeConfig) : Except ConfigError Unit :=
  if c.maxFrames = some 0 then .error (zeroError "runtime.max_frames")
  else if c.stackCapacity = some 0 then .error (zeroError "runtime.stack_capacity")
  else if c.instructionLimit = some 0 then .error (zeroError "runtime.instruction_limit")
  else .ok ()

/-- Put a layer on top: what it sets, counts. -/
def merge (base top : RuntimeConfig) : RuntimeConfig where
  maxFrames := top.maxFrames <|> base.maxFrames
  stackCapacity := top.stackCapacity <|> base.stackCapacity
  instructionLimit := top.instructionLimit <|> base.instructionLimit
  selectSeed := top.selectSeed <|> base.selectSeed

/-- A layer that sets nothing changes nothing. -/
@[simp] theorem merge_empty (c : RuntimeConfig) : c.merge {} = c := by
  simp [merge]

/-- On top of nothing, a layer says all there is to say. -/
@[simp] theorem empty_merge (c : RuntimeConfig) : ({} : RuntimeConfig).merge c = c := by
  simp [merge]

end RuntimeConfig

/-- The limits of a machine. -/
structure VmConfig where
  /-- The number of frames a task may have. -/
  maxFrames : Nat := 1024
  /-- The number of operands a task may have. -/
  stackCapacity : Nat := 65536
  /-- The number of instructions a program may execute. -/
  instructionLimit : Option Nat := some 100000000
  /-- Makes the choices of select reproducible. -/
  selectSeed : Option Nat := none
deriving DecidableEq, Inhabited

/-- The limits of a machine from those of the layers: what no layer sets keeps its
default. -/
def VmConfig.ofRuntime (c : RuntimeConfig) : VmConfig :=
  let defaults : VmConfig := {}
  { maxFrames := c.maxFrames.getD defaults.maxFrames
    stackCapacity := c.stackCapacity.getD defaults.stackCapacity
    instructionLimit := c.instructionLimit <|> defaults.instructionLimit
    selectSeed := c.selectSeed }

end TaskVm
