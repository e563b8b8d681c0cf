import ConfigGraft.Text.Quoted
import ConfigGraft.VariableFile
import ConfigGraft.World

/-!
# Loading variable files

A variable file that is not there, or cannot be read, gives no variables. What was wrong with it,
and each of its lines that was left out, goes to the journal.
-/

namespace ConfigGraft.VariableFile

/-! ### Records -/

def speaker : String := "config_injector::resolver::env_file"

def absentRecord (path : String) : Log.Record :=
  ⟨.info, speaker, "Environment file not found", [("file", path)]⟩

def unreadableRecord (path : String) (cause : DiskFault) : Log.Record :=
  ⟨.warn, speaker, "Failed to read environment file", [("file", path), ("error", cause.message)]⟩

/-- The record about a line that was left out. -/
def lineRecord? (path : String) (n : Nat) : Line → Option Log.Record
  | .noEquals content => some
    ⟨.warn, speaker, "Invalid line format, expected KEY=VALUE",
      [("file", Text.quoted path), ("line", toString n),
        ("content", Text.quoted (String.ofList content))]⟩
  | .noName => some
    ⟨.warn, speaker, "Empty variable name", [("file", Text.quoted path), ("line", toString n)]⟩
  | _ => none

/-- The records about the lines that were left out, in the order of the lines. -/
def lineRecords (path content : String) : List Log.Record :=
  (rejected content).filterMap fun (n, line) => lineRecord? path n line

/-! ### Loading -/

/-- **Loads the variables of a file:** them, and what there is to report. -/
def load (disk : Disk) (path : String) : Variables × List Log.Record :=
  if disk.has path then
    match disk.readText path with
    | .ok content => (parse content, lineRecords path content)
    | .error cause => ({}, [unreadableRecord path cause])
  else ({}, [absentRecord path])

end ConfigGraft.VariableFile
