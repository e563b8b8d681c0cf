import ConfigGraft.KeyPath

/-!
# Change sets

A change gives the value at a path of a document a new text, which is a template. A change set is a
list of files with the changes for each. A policy says how strict a run is.
-/

namespace ConfigGraft

/-- A new text for the value at a path. -/
structure Change where
  path : KeyPath
  value : String
  deriving DecidableEq

/-- The changes for a file, in the order in which they take effect. -/
structure FileEntry where
  file : String
  changes : List Change := []
  deriving DecidableEq

/-- How strict a run is. -/
structure Policy where
  /-- Whether a required variable without a value makes the run fail. -/
  stopOnMissingRequired : Bool := true
  /-- Whether other failures stop the caller. -/
  stopOnError : Bool := false
  /-- Whether the files of a change set have to be there before the run. -/
  requireExistingFiles : Bool := true
  deriving DecidableEq, Repr

/-- What a run has done: how many files it went through, and how many of them it wrote. -/
structure Summary where
  processed : Nat := 0
  modified : Nat := 0
  deriving DecidableEq, Repr

/-- The summary as a sentence. -/
def Summary.text (s : Summary) : String :=
  s!"Processed {s.processed} files, modified {s.modified} files"

end ConfigGraft
