import ConfigGraft.Program
import Std.Time

/-!
# The command line

Runs the program on the files of the machine. What the run may look at is copied into a disk, the
run takes place on that disk, and what it changed there is written back. The copy takes two rounds,
since the master configuration names further files.

A disk knows no permissions. So a file that is there and cannot be read ends the program before the
run, with the failure on the standard error stream and status 1; it does not pass for one that is
not there. A failure to write back ends the program likewise.
-/

namespace ConfigGraft.Main

/-- The path of a location. -/
def pathOf (place : Location) : String := "/" ++ "/".intercalate place

/-- What stands at a location of the machine. A file that is there and cannot be read is a
failure. -/
def fetchNode (place : Location) : IO (Option Disk.Node) := do
  let path := (← IO.currentDir) / pathOf place
  if ← path.isDir then return some .directory
  if ← path.pathExists then return some (.file (← IO.FS.readBinFile path))
  return none

/-- A disk with what stands at some locations of the machine. -/
def fetchPlaces (disk : Disk) (places : List Location) : IO Disk := do
  let mut disk := disk
  for place in places do
    if (disk.node? place).isNone then
      if let some node ← fetchNode place then
        disk := disk.put place node
  return disk

/-- A disk with what the machine has on the way of some names. -/
def fetchNames (disk : Disk) (names : List String) : IO Disk :=
  fetchPlaces disk (names.flatMap fun name => Disk.way (disk.start name) (FileName.parts name))

/-- The disk that a run with an environment works on. -/
def fetch (arguments : List String) (environment : Variables) : IO Disk := do
  let here := (FileName.parts (← IO.currentDir).toString).filter (· != "")
  let disk ← fetchPlaces { here } (Disk.way [] here)
  let disk ← fetchNames disk (Program.namesOf arguments environment disk)
  fetchNames disk (Program.namesOf arguments environment disk)

/-- Writes what a run changed back to the machine. -/
def commit (before after : Disk) : IO Unit := do
  for (place, node) in after.nodes do
    if before.node? place ≠ some node then
      match node with
      | .directory => IO.FS.createDir (pathOf place)
      | .file content => IO.FS.writeBinFile (pathOf place) content

/-- The environment of the program. An entry that is no text is left out. -/
def environment : IO Variables := do
  let bytes ← IO.FS.readBinFile "/proc/self/environ"
  let entries := bytes.toList.splitOn 0
  return entries.foldr (fun entry vars =>
    match (String.fromUTF8? ⟨entry.toArray⟩).map (·.splitOn "=") with
    | some (name :: value) => vars.insert name ("=".intercalate value)
    | _ => vars) {}

/-- The stamp of the records of this run. -/
def stampNow : IO String := do
  let now ← Std.Time.Timestamp.now
  let time := Std.Time.PlainDateTime.ofWallTime (Std.Time.WallTime.ofDuration now.val)
  return time.format "uuuu-MM-dd'T'HH:mm:ss.SSSSSS'Z'"

end ConfigGraft.Main

open ConfigGraft in
/-- Runs the program with arguments, and gives its exit status. -/
def main (arguments : List String) : IO UInt32 := do
  try
    let environment ← Main.environment
    let disk ← Main.fetch arguments environment
    let journal : Journal := { stamp := ← Main.stampNow }
    let (world, exit) := Program.run arguments environment { disk, journal }
    IO.print world.journal.out
    IO.eprint world.journal.err
    Main.commit disk world.disk
    return exit.code.toUInt32
  catch failure =>
    IO.eprintln s!"I/O failure: {failure}"
    return 1
