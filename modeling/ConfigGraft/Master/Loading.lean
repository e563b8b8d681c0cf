import ConfigGraft.Master
import ConfigGraft.VariableFile.Loading
import ConfigGraft.World

/-!
# Loading master configurations

Where the master configuration is looked for, and what can go wrong when it is read. A place that
the caller names comes first, then one that the environment names, then the usual one.
-/

namespace ConfigGraft

/-- The directory that files are named from, and the file of the master configuration. -/
structure MasterPlace where
  base : String
  file : String
  deriving DecidableEq, Repr

namespace MasterPlace

/-- The variable that names the base directory. -/
def baseVariable : String := "CONFIG_INJECTOR_BASE_DIR"

/-- The variable that names the file. -/
def fileVariable : String := "CONFIG_INJECTOR_CONFIG_PATH"

/-- The usual base directory. -/
def usualBase : String := "."

/-- The usual name of the file in the base directory. -/
def usualFile : String := "config-injector.yml"

/-- Finds the place from what the caller names and from the environment. -/
def discover (environment : Variables) (base? file? : Option String) : MasterPlace :=
  let base := (base?.or (environment.value? baseVariable)).getD usualBase
  let file := (file?.or (environment.value? fileVariable)).getD (FileName.join base usualFile)
  ⟨base, file⟩

end MasterPlace

/-- Why a master configuration could not be loaded. -/
inductive MasterFault where
  | notFound (path : String)
  | unreadable (path : String) (cause : DiskFault)
  | malformed (path : String)
  deriving DecidableEq, Repr

namespace MasterFault

/-- What failed, without the cause. -/
def headline : MasterFault → String
  | .notFound path => s!"Config file not found: {path}"
  | .unreadable path _ => s!"Failed to read config file: {path}"
  | .malformed path => s!"Failed to parse config file: {path}"

/-- What failed, and the cause where one is known. -/
def message : MasterFault → String
  | .unreadable path cause => (unreadable path cause).headline ++ ": " ++ cause.message
  | fault => fault.headline

end MasterFault

namespace MasterConfig

/-- **Loads the master configuration of a place.** -/
def load (disk : Disk) (place : MasterPlace) : Except MasterFault MasterConfig :=
  if disk.has place.file then
    match disk.readText place.file with
    | .error cause => .error (.unreadable place.file cause)
    | .ok content =>
      match parse? content with
      | some config => .ok config
      | none => .error (.malformed place.file)
  else .error (.notFound place.file)

/-- The record about a configuration that was loaded. -/
def loadedRecord (place : MasterPlace) (config : MasterConfig) : Log.Record :=
  ⟨.debug, "config_injector::config::loader", "Loaded master configuration",
    [("config", place.file), ("base_dir", place.base),
      ("files", toString config.replacements.length)]⟩

/-- The variables that a configuration works with: first those of the environment, then those of
the variable file as seen from a base directory. With them come the records about the file. -/
def chain (config : MasterConfig) (base : String) (environment : Variables) (disk : Disk) :
    Chain × List Log.Record :=
  let (fromFile, records) := VariableFile.load disk (config.envFilePath base)
  (⟨[environment, fromFile]⟩, records)

end MasterConfig

end ConfigGraft
