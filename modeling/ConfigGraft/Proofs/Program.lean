import ConfigGraft.Program
import ConfigGraft.Proofs.World.Logged

/-!
# The world that the program hands to a run

The program opens the journal before it does anything else. A journal in a file is there from then
on, so that the records of a run add to a file that stands already.

## Main results

* `Program.opened_openJournal` — **the journal of the program is open;**
* `Program.logged_runCheck` — a check does no more than report.
-/

namespace ConfigGraft

/-- Where something was added, something stands. -/
theorem Disk.isSome_node?_appendAt (disk : Disk) (place : Location) (content : ByteArray) :
    ((disk.appendAt place content).node? place).isSome := by
  rw [appendAt]
  split
  · rename_i hfile
    rw [node?_put (ne_nil_of_file hfile), if_pos rfl]
    rfl
  · rename_i hdirectory
    rw [hdirectory]
    rfl
  · rename_i hnone
    have hroot : place ≠ [] := by
      rintro rfl
      simp [node?] at hnone
    rw [node?_put hroot, if_pos rfl]
    rfl

namespace Program

/-- **The journal of the program is open.** -/
theorem opened_openJournal (line : CommandLine) (environment : Variables) (world : World) :
    (openJournal line environment world).Opened := by
  rw [openJournal]
  split
  · exact fun place h => by cases h
  · exact fun place h => by cases h
  · exact fun place h => by cases h
  · split
    · exact fun place h => by cases h
    · rename_i place _
      intro other h
      obtain rfl : place = other := Sink.file.inj h
      exact Disk.isSome_node?_appendAt world.disk place .empty

/-- A fault is reported, whether or not it is fatal. -/
theorem logged_report (policy : Policy) (fault : Fault) (world : World) :
    world.Logged (report policy fault world).1 := by
  rw [report]
  split
  · exact .note _ (.note _ (.refl world))
  · exact .note _ (.note _ (.refl world))

/-- **A check does no more than report.** -/
theorem logged_runCheck (s : ChangeSet.Setting) (entries : List FileEntry) (world : World) :
    world.Logged (runCheck s entries world).1 := by
  rw [runCheck]
  split
  · exact logged_report ..
  · split
    · exact .note _ (.refl world)
    · exact logged_report ..

end Program

end ConfigGraft
