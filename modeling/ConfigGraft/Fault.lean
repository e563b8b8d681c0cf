import ConfigGraft.ChangeSet
import ConfigGraft.Disk
import ConfigGraft.Document
import ConfigGraft.MissingNames

/-!
# Faults

Why a change set could not be applied, with the wording and the code of each reason, and which of
them are fatal under a policy.
-/

namespace ConfigGraft

/-- Why a document cannot be taken from its file or put there. -/
inductive DocumentTrouble where
  | unreadable (fault : DocumentFault)
  | unwritable
  deriving DecidableEq, Repr

/-- The wording of the trouble, where it is fixed. -/
def DocumentTrouble.message? : DocumentTrouble → Option String
  | .unreadable fault => fault.message?
  | .unwritable => none

/-- Why a change set could not be applied. -/
inductive Fault where
  | missingRequired (names : MissingNames)
  | fileNotFound (path : String)
  | unsupported (file : String)
  | malformed (path : String) (trouble : DocumentTrouble)
  | io (path : String) (cause : DiskFault)
  | invalidPath (path : String) (reason : PathFault)

namespace Fault

/-- The code of the kind of fault. -/
def code : Fault → String
  | .missingRequired _ => "MISSING_REQUIRED_VARIABLES"
  | .fileNotFound _ => "FILE_NOT_FOUND"
  | .unsupported _ => "UNSUPPORTED_FORMAT"
  | .malformed .. => "MALFORMED_DOCUMENT"
  | .io .. => "IO_FAILURE"
  | .invalidPath .. => "INVALID_PATH"

/-- The wording of a fault, with everything that is known about it. -/
def message : Fault → String
  | .missingRequired names => "missing required variables: " ++ ", ".intercalate names.names
  | .fileNotFound path => s!"configuration file not found: {path}"
  | .unsupported file => s!"no suitable processor found for file: {file}"
  | .malformed path trouble =>
    s!"malformed document {path}: " ++ (trouble.message?.getD "the text does not fit the format")
  | .io path cause => s!"I/O error on {path}: {cause.message}"
  | .invalidPath path reason => s!"invalid path '{path}': {reason.message}"

/-- The kind of fault in a few words. -/
def headline : Fault → String
  | .missingRequired _ => "Missing required variables"
  | .fileNotFound _ => "Configuration file not found"
  | .unsupported _ | .invalidPath .. => "Invalid configuration format"
  | .malformed .. => "Malformed configuration file"
  | .io .. => "I/O error during configuration processing"

/-- Whether the caller has to stop. Missing variables have a switch of their own. -/
def isFatal (policy : Policy) : Fault → Bool
  | .missingRequired _ => policy.stopOnMissingRequired
  | _ => policy.stopOnError

end Fault

end ConfigGraft
