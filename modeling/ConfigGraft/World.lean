import ConfigGraft.Disk
import ConfigGraft.Log

/-!
# Worlds

What a run acts on: a disk, and a journal that keeps the records of the run. A journal that is kept
in a file is a part of the disk, so each record is written there at once.
-/

namespace ConfigGraft

/-- Where a journal is kept. -/
inductive Sink where
  | off
  | stdout
  | stderr
  | file (place : Location)
  deriving DecidableEq, Repr

/-- The records of a run: which are kept, where, and the stamp before each line; and what was
written to the two streams so far. -/
structure Journal where
  filter : Log.Filter := .ofLevel .info
  sink : Sink := .off
  stamp : String := ""
  out : String := ""
  err : String := ""

/-- A disk and a journal. -/
structure World where
  disk : Disk := {}
  journal : Journal := {}

namespace World

/-- Writes text to the place where the journal is kept. -/
def write (text : String) (w : World) : World :=
  match w.journal.sink with
  | .off => w
  | .stdout => { w with journal := { w.journal with out := w.journal.out ++ text } }
  | .stderr => { w with journal := { w.journal with err := w.journal.err ++ text } }
  | .file place => { w with disk := w.disk.appendAt place text.toUTF8 }

/-- Writes a record to the journal, if its filter keeps it. -/
def note (r : Log.Record) (w : World) : World :=
  if w.journal.filter.keeps r then w.write (r.line w.journal.stamp ++ "\n") else w

/-- Writes a line to the error stream, whatever the journal is. -/
def complain (line : String) (w : World) : World :=
  { w with journal := { w.journal with err := w.journal.err ++ line ++ "\n" } }

/-- Unless the journal is kept in a file, a record leaves the disk alone. -/
theorem disk_note (r : Log.Record) {w : World} (h : ∀ place, w.journal.sink ≠ .file place) :
    (w.note r).disk = w.disk := by
  unfold note write
  split
  · split
    · rfl
    · rfl
    · rfl
    · rename_i place hp; exact absurd hp (h place)
  · rfl

end World

end ConfigGraft
