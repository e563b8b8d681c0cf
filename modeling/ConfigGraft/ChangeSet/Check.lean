import ConfigGraft.ChangeSet.Apply

/-!
# Checking a change set

A check goes through a change set without reading or writing a document: it looks whether the files
and formats are right, and gathers the required variables that have no value.
-/

namespace ConfigGraft.ChangeSet

/-- Gathers the missing variables of changes. -/
def gatherMissing (resolver : Resolver) : List Change → MissingNames → MissingNames
  | [], missing => missing
  | change :: rest, missing =>
    gatherMissing resolver rest (Template.expand resolver true change.value missing).2

/-- Checks files from the first to the last, until one fails. -/
def checkEntries (s : Setting) (disk : Disk) :
    List FileEntry → MissingNames → Except Fault MissingNames
  | [], missing => .ok missing
  | entry :: rest, missing =>
    match target s disk entry, formatOf entry with
    | .error fault, _ => .error fault
    | .ok _, .error fault => .error fault
    | .ok _, .ok _ => checkEntries s disk rest (gatherMissing s.chain entry.changes missing)

/-- **Checks a change set:** the required variables without a value, however strict the policy. -/
def check (s : Setting) (entries : List FileEntry) (disk : Disk) : Except Fault MissingNames :=
  checkEntries s disk entries .none

end ConfigGraft.ChangeSet
