import ConfigGraft.Fault
import ConfigGraft.Placeholder
import ConfigGraft.Text.Quoted
import ConfigGraft.Variables
import ConfigGraft.World

/-!
# Applying a change set

The files of a change set are gone through in order. Each is read, changed and, if a change made a
difference, written. A fault ends the run at once and leaves what was written before. Required
variables without a value are gathered over all files and reported at the end.
-/

namespace ConfigGraft

/-! ### Documents on a disk -/

namespace Document

/-- The text of a file in a format. Properties are stored one byte a character, and all other
formats in UTF-8. -/
def contentOf (format : Format) (disk : Disk) (path : String) : Except DiskFault String :=
  match format with
  | .properties => (disk.readBytes path).map Properties.decode
  | _ => disk.readText path

/-- The document in a file, or the empty document if there is no file. -/
def load (format : Format) (disk : Disk) (path : String) : Except Fault Document :=
  if disk.has path then
    match contentOf format disk path with
    | .error cause => .error (.io path cause)
    | .ok content =>
      match parse format content with
      | .ok document => .ok document
      | .error fault => .error (.malformed path (.unreadable fault))
  else .ok (empty format)

/-- Makes the directory that a file is to be in, unless it is there. -/
def makeRoom (disk : Disk) (path : String) : Disk × Option Fault :=
  match FileName.parent? path with
  | none => (disk, none)
  | some up =>
    if up = "" ∨ disk.has up then (disk, none)
    else match disk.makeDirectories up with
      | (disk, none) => (disk, none)
      | (disk, some cause) => (disk, some (.io up cause))

/-- Writes a document to a file. The disk comes back on failure too, since directories may have
been made by then. -/
def store (disk : Disk) (path : String) (document : Document) : Disk × Option Fault :=
  match document.render? with
  | none => (disk, some (.malformed path .unwritable))
  | some text =>
    match makeRoom disk path with
    | (disk, some fault) => (disk, some fault)
    | (disk, none) =>
      match disk.writeBytes path text.toUTF8 with
      | .ok disk => (disk, none)
      | .error cause => (disk, some (.io path cause))

end Document

namespace ChangeSet

/-- What stays the same during a run: the directory that files are named from, where the values of
variables are looked up, and the policy. -/
structure Setting where
  base : String := "."
  chain : Resolver := fun _ => none
  policy : Policy := {}

/-- The path of a file as seen from the base directory. -/
def Setting.pathOf (s : Setting) (entry : FileEntry) : String := FileName.join s.base entry.file

/-- How far a run has come. -/
structure Progress where
  world : World
  missing : MissingNames := .none
  summary : Summary := {}

/-- Why a run ended before its time: a fault, or a mapping that is closed to changes. -/
inductive Halt where
  | fault (f : Fault)
  | crash (s : SealedMapping)

namespace Progress

def note (r : Log.Record) (p : Progress) : Progress := { p with world := p.world.note r }

/-- The progress with the disk as an attempt to write left it. -/
def withDisk (disk : Disk) (p : Progress) : Progress :=
  { p with world := { p.world with disk } }

end Progress

/-! ### Records -/

def codecSpeaker : String := "config_injector::codec"

def runSpeaker : String := "config_injector::inject"

def appliedRecord (path : String) (change : Change) (changed : Bool) : Log.Record :=
  ⟨.debug, codecSpeaker, "Applied change",
    [("file", path), ("path", change.path.text), ("changed", toString changed)]⟩

def updatedRecord (path : String) (format : Format) : Log.Record :=
  ⟨.info, codecSpeaker, "Updated configuration file",
    [("file", path), ("format", Text.quoted format.name)]⟩

def processingRecord (path : String) (format : Format) (changes : Nat) : Log.Record :=
  ⟨.debug, runSpeaker, "Processing file",
    [("file", path), ("format", Text.quoted format.name), ("changes", toString changes)]⟩

def summaryRecord (s : Summary) : Log.Record :=
  ⟨.info, runSpeaker, s.text,
    [("processed", toString s.processed), ("modified", toString s.modified)]⟩

def missingRecord (missing : MissingNames) : Log.Record :=
  ⟨.warn, runSpeaker, "Missing required variables", [("count", toString missing.size)]⟩

/-! ### One file -/

/-- Lets changes take effect on a document, from the first to the last. Along with the document
comes whether any of them made a difference, or `dirty` did before. -/
def applyChanges (s : Setting) (path : String) :
    List Change → Document → Bool → Progress → Progress × Except Halt (Document × Bool)
  | [], document, dirty, p => (p, .ok (document, dirty))
  | change :: rest, document, dirty, p =>
    let (text, missing) :=
      Template.expand s.chain s.policy.stopOnMissingRequired change.value p.missing
    let p := { p with missing }
    match document.set change.path text with
    | .error crash => (p, .error (.crash crash))
    | .ok (document, changed) =>
      applyChanges s path rest document (dirty || changed)
        (p.note (appliedRecord path change changed))

/-- Applies changes to a file, and says whether it was written. -/
def applyFile (s : Setting) (path : String) (format : Format) (changes : List Change)
    (p : Progress) : Progress × Except Halt Bool :=
  match Document.load format p.world.disk path with
  | .error fault => (p, .error (.fault fault))
  | .ok document =>
    match applyChanges s path changes document false p with
    | (p, .error halt) => (p, .error halt)
    | (p, .ok (_, false)) => (p, .ok false)
    | (p, .ok (document, true)) =>
      match Document.store p.world.disk path document with
      | (disk, some fault) => (p.withDisk disk, .error (.fault fault))
      | (disk, none) => ((p.withDisk disk).note (updatedRecord path format), .ok true)

/-! ### All files -/

/-- The path of the file of an entry. It has to exist where the policy says so. -/
def target (s : Setting) (disk : Disk) (entry : FileEntry) : Except Fault String :=
  if s.policy.requireExistingFiles && !disk.has (s.pathOf entry) then
    .error (.fileNotFound (s.pathOf entry))
  else .ok (s.pathOf entry)

/-- The format of a file by its name. -/
def formatOf (entry : FileEntry) : Except Fault Format :=
  match Format.ofFile? entry.file with
  | some format => .ok format
  | none => .error (.unsupported entry.file)

/-- Applies the changes for one file. -/
def applyEntry (s : Setting) (entry : FileEntry) (p : Progress) : Progress × Option Halt :=
  match target s p.world.disk entry with
  | .error fault => (p, some (.fault fault))
  | .ok path =>
    match formatOf entry with
    | .error fault => (p, some (.fault fault))
    | .ok format =>
      match applyFile s path format entry.changes
          (p.note (processingRecord path format entry.changes.length)) with
      | (p, .error halt) => (p, some halt)
      | (p, .ok written) =>
        ({ p with summary := {
            processed := p.summary.processed + 1
            modified := p.summary.modified + if written then 1 else 0 } }, none)

/-- Applies the changes for files, from the first to the last, until one fails. -/
def applyEntries (s : Setting) : List FileEntry → Progress → Progress × Option Halt
  | [], p => (p, none)
  | entry :: rest, p =>
    match applyEntry s entry p with
    | (p, some halt) => (p, some halt)
    | (p, none) => applyEntries s rest p

/-- Closes a run in which no file failed: it fails if a required variable had no value. -/
def conclude (p : Progress) : World × Except Halt Summary :=
  let p := p.note (summaryRecord p.summary)
  if p.missing.isEmpty then (p.world, .ok p.summary)
  else ((p.note (missingRecord p.missing)).world, .error (.fault (.missingRequired p.missing)))

/-- **Applies a change set.** -/
def apply (s : Setting) (entries : List FileEntry) (world : World) :
    World × Except Halt Summary :=
  match applyEntries s entries { world } with
  | (p, some halt) => (p.world, .error halt)
  | (p, none) => conclude p

end ChangeSet

end ConfigGraft
