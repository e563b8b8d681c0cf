import ConfigGraft.Association
import ConfigGraft.FileName

/-!
# Disks

The files and directories that a run can see, as a value. A disk maps locations, which are lists
of names below the root, to directories and files, and it has a working directory from which
relative names are followed. The root is always a directory.

A name is followed part by part. Each step asks for an existing directory, so `x/../a` leads
nowhere while `x` is missing, although `a` may exist.

Links, permissions and failures of files that are there are left out. So two locations are never
the same file, every file can be read and every directory entered, and an attempt to write fails
only for its name or for what stands where the name leads. Devices, sockets and the like are no part
of a disk either, and nothing else changes it while a run goes on.
-/

namespace ConfigGraft

/-- What stands at a location. -/
inductive Disk.Node where
  | directory
  | file (content : ByteArray)

instance : DecidableEq Disk.Node
  | .directory, .directory => isTrue rfl
  | .directory, .file _ => isFalse nofun
  | .file _, .directory => isFalse nofun
  | .file ⟨a⟩, .file ⟨b⟩ =>
    if h : a = b then isTrue (h ▸ rfl) else isFalse fun e => h (by injection e with e; injection e)

/-- A place below the root. -/
abbrev Location := List String

/-- Why a disk operation failed. -/
inductive DiskFault where
  | notFound
  | exists
  | notADirectory
  | isADirectory
  | nameTooLong
  | zeroInName
  | invalidText
  | noParent
  deriving DecidableEq, Repr

/-- The wording of a failure. -/
def DiskFault.message : DiskFault → String
  | .notFound => "No such file or directory (os error 2)"
  | .exists => "File exists (os error 17)"
  | .notADirectory => "Not a directory (os error 20)"
  | .isADirectory => "Is a directory (os error 21)"
  | .nameTooLong => "File name too long (os error 36)"
  | .zeroInName => "file name contained an unexpected NUL byte"
  | .invalidText => "stream did not contain valid UTF-8"
  | .noParent => "failed to create whole tree"

/-- Files and directories, and a place among them. -/
structure Disk where
  nodes : List (Location × Disk.Node) := []
  here : Location := []
  deriving DecidableEq

namespace Disk

/-! ### Locations -/

/-- What stands at a location. -/
def node? (disk : Disk) (place : Location) : Option Node :=
  if place = [] then some .directory else disk.nodes.lookup place

/-- The disk with a node put at a location. -/
def put (disk : Disk) (place : Location) (node : Node) : Disk :=
  { disk with nodes := Association.put place node disk.nodes }

/-- What stands at a location after a node was put somewhere below the root. -/
theorem node?_put {place : Location} (h : place ≠ []) (disk : Disk) (node : Node)
    (other : Location) :
    (disk.put place node).node? other = if other = place then some node else disk.node? other := by
  by_cases ho : other = []
  · subst ho; simp [node?, Ne.symm h]
  · simp [node?, ho, put, Association.lookup_put]

/-! ### Following names -/

/-- One step: from a directory to the place that a part of a name means. -/
def step (disk : Disk) (place : Location) (part : String) : Except DiskFault Location :=
  match disk.node? place with
  | none => .error .notFound
  | some (.file _) => .error .notADirectory
  | some .directory =>
    if part = "" ∨ part = "." then .ok place
    else if part = ".." then .ok place.dropLast
    else if 255 < part.utf8ByteSize then .error .nameTooLong
    else .ok (place ++ [part])

/-- All steps of a name, one after the other. -/
def walk (disk : Disk) : Location → List String → Except DiskFault Location
  | place, [] => .ok place
  | place, part :: rest =>
    match disk.step place part with
    | .ok next => disk.walk next rest
    | .error fault => .error fault

/-- The place where a name is followed from. -/
def start (disk : Disk) (name : String) : Location :=
  if name.startsWith '/' then [] else disk.here

/-- The locations that lie on the way of a name, if each step of it can be made. -/
def way : Location → List String → List Location
  | place, [] => [place]
  | place, part :: rest =>
    place :: way
      (if part = "" ∨ part = "." then place
       else if part = ".." then place.dropLast
       else place ++ [part]) rest

/-- The location that a name means, whether or not something stands there. -/
def locate (disk : Disk) (name : String) : Except DiskFault Location :=
  if name = "" then .error .notFound
  else if name.contains '\x00' then .error .zeroInName
  else if 4096 ≤ name.utf8ByteSize then .error .nameTooLong
  else disk.walk (disk.start name) (FileName.parts name)

/-- What a name leads to. -/
def find (disk : Disk) (name : String) : Except DiskFault (Location × Node) :=
  match disk.locate name with
  | .error fault => .error fault
  | .ok place =>
    match disk.node? place with
    | some node => .ok (place, node)
    | none => .error .notFound

/-- Whether a name leads to a file or directory. -/
def has (disk : Disk) (name : String) : Bool :=
  match disk.find name with
  | .ok _ => true
  | .error _ => false

/-- Whether a name leads to a directory. -/
def isDirectory (disk : Disk) (name : String) : Bool :=
  match disk.find name with
  | .ok (_, .directory) => true
  | _ => false

/-! ### Reading and writing -/

/-- The bytes of a file. -/
def readBytes (disk : Disk) (name : String) : Except DiskFault ByteArray :=
  match disk.find name with
  | .ok (_, .file content) => .ok content
  | .ok (_, .directory) => .error .isADirectory
  | .error fault => .error fault

/-- The text of a file. -/
def readText (disk : Disk) (name : String) : Except DiskFault String :=
  match disk.readBytes name with
  | .ok content => match String.fromUTF8? content with
    | some text => .ok text
    | none => .error .invalidText
  | .error fault => .error fault

/-- Where a file to be written is, or will be. A name that ends in a slash means no file. -/
def target (disk : Disk) (name : String) : Except DiskFault Location :=
  if name.endsWith '/' then
    match disk.walk (disk.start name)
        (FileName.parts (name.dropEndWhile '/').toString) with
    | .ok _ => .error .isADirectory
    | .error fault => .error fault
  else match disk.locate name with
  | .error fault => .error fault
  | .ok place =>
    match disk.node? place with
    | some .directory => .error .isADirectory
    | _ => .ok place

/-- Writes a whole file, in place of what it held. Its directory has to exist. -/
def writeBytes (disk : Disk) (name : String) (content : ByteArray) : Except DiskFault Disk :=
  match disk.target name with
  | .ok place => .ok (disk.put place (.file content))
  | .error fault => .error fault

/-- Adds to the end of the file at a location. -/
def appendAt (disk : Disk) (place : Location) (content : ByteArray) : Disk :=
  match disk.node? place with
  | some (.file old) => disk.put place (.file (old ++ content))
  | some .directory => disk
  | none => disk.put place (.file content)

/-! ### Making directories -/

/-- Makes one directory. -/
def makeDirectory (disk : Disk) (name : String) : Except DiskFault Disk :=
  match disk.locate name with
  | .error fault => .error fault
  | .ok place =>
    match disk.node? place with
    | some _ => .error .exists
    | none => .ok (disk.put place .directory)

/-- Makes a directory and those above it that are missing. The disk comes back also on failure,
since directories above may have been made by then. The number bounds the steps upwards. -/
def makeDirectoriesUp : Nat → Disk → String → Disk × Option DiskFault
  | 0, disk, _ => (disk, some .noParent)
  | bound + 1, disk, name =>
    if name = "" then (disk, none)
    else match disk.makeDirectory name with
    | .ok disk => (disk, none)
    | .error .notFound =>
      match FileName.parent? name with
      | none => (disk, some .noParent)
      | some up =>
        match makeDirectoriesUp bound disk up with
        | (disk, some fault) => (disk, some fault)
        | (disk, none) =>
          match disk.makeDirectory name with
          | .ok disk => (disk, none)
          | .error fault => (disk, if disk.isDirectory name then none else some fault)
    | .error fault => (disk, if disk.isDirectory name then none else some fault)

/-- Makes a directory and those above it that are missing. -/
def makeDirectories (disk : Disk) (name : String) : Disk × Option DiskFault :=
  makeDirectoriesUp (name.length + 1) disk name

end Disk

end ConfigGraft
