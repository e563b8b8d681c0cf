import ConfigGraft.Proofs.ChangeSet.Rewrite
import ConfigGraft.Proofs.ChangeSet.Sequence
import ConfigGraft.Proofs.Placeholder

/-!
# Entries in another order

Entries for different files that are there do not get in each other's way: each rewrites its own
file, whatever the others have made of theirs. So two entries that stand next to each other can
change places, and with that all entries can be put in any order. The run gets through just the
same, with the same counts and the same missing names, and leaves the same files.

## Main results

* `rewriteStep_swap` — two entries change places;
* `applyEntries_perm` — entries are gone through in any order;
* `exists_applyEntries` — a run over entries that can rewrite their files gets through;
* `apply_perm` — **a run over entries for different files does the same in any order.**
-/

namespace ConfigGraft.ChangeSet

variable {s : Setting} {entries others : List FileEntry} {w v : World} {p q r : Progress}

/-! ### Entries for different files -/

/-- Entries that are **separate:** the journal is open, each name leads somewhere, not to the
journal, and no two lead to the same place. -/
structure Separate (s : Setting) (entries : List FileEntry) (w : World) : Prop where
  require : s.policy.requireExistingFiles = true
  opened : w.Opened
  located : ∀ entry ∈ entries, ∃ place, w.disk.locate (s.pathOf entry) = .ok place
  spares : ∀ entry ∈ entries, w.Spares (s.pathOf entry)
  apart : entries.Pairwise fun a b => w.disk.locate (s.pathOf a) ≠ w.disk.locate (s.pathOf b)

namespace Separate

/-- Entries that keep apart do so in any order. -/
theorem perm (h : Separate s entries w) (hperm : entries.Perm others) : Separate s others w :=
  ⟨h.require, h.opened, fun entry hentry => h.located entry (hperm.mem_iff.2 hentry),
    fun entry hentry => h.spares entry (hperm.mem_iff.2 hentry),
    h.apart.perm hperm fun hne => hne.symm⟩

/-- Without the first entry, the others keep apart too. -/
theorem tail {entry : FileEntry} (h : Separate s (entry :: entries) w) : Separate s entries w :=
  ⟨h.require, h.opened, fun other hother => h.located other (List.mem_cons_of_mem _ hother),
    fun other hother => h.spares other (List.mem_cons_of_mem _ hother), h.apart.of_cons⟩

/-- Entries keep apart on a disk of the same shape, as long as the journal stays where it is. -/
theorem of_sameShape (h : Separate s entries w) (hsink : v.journal.sink = w.journal.sink)
    (hshape : w.disk.SameShape v.disk) : Separate s entries v := by
  have hlocate := hshape.locate_eq
  refine ⟨h.require, h.opened.of_sameShape hsink hshape, ?_, ?_, ?_⟩
  · simpa only [hlocate] using h.located
  · intro entry hentry place hplace
    rw [hsink]
    exact h.spares entry hentry place (hlocate _ ▸ hplace)
  · simpa only [hlocate] using h.apart

/-- A step leaves the other entries separate. -/
theorem step {entry : FileEntry} (h : Separate s (entry :: entries) p.world)
    (hrun : applyEntry s entry p = (q, none)) : Separate s entries q.world := by
  have hstep := applyEntry_step s entry p
  rw [hrun] at hstep
  exact h.tail.of_sameShape hstep.sink_eq (hstep.foreseen (.start h.opened) h.require).1

/-- The journal stays spared, whatever else comes to stand on the disk. -/
theorem sparesJournal (h : Separate s entries w) : s.SparesJournal entries w := by
  intro entry hentry _ _ v hsink hgrows place hplace
  obtain ⟨other, hother⟩ := h.located entry hentry
  obtain rfl : other = place := Except.ok.inj ((hgrows.locate_eq_ok hother).symm.trans hplace)
  rw [hsink]
  exact h.spares entry hentry other hother

end Separate

/-! ### Two entries -/

/-- **Two entries for different files change places.** What they leave are twins. -/
theorem rewriteStep_swap {a b : FileEntry} (h : Separate s (a :: b :: entries) p.world)
    (ha : applyEntry s a p = (q, none)) (hb : applyEntry s b q = (r, none)) :
    ∃ q' r', applyEntry s b p = (q', none) ∧ applyEntry s a q' = (r', none) ∧ r.Ahead {} r' := by
  have hq := h.step ha
  obtain ⟨place, content, new?, hstep⟩ :=
    exists_rewriteStep h.require h.opened (h.spares a List.mem_cons_self) ha
  obtain ⟨place', content', new?', hnext⟩ :=
    exists_rewriteStep h.require hq.opened (hq.spares b List.mem_cons_self) hb
  have hsparesA := h.spares a List.mem_cons_self
  have hsparesB := h.spares b (List.mem_cons_of_mem _ List.mem_cons_self)
  have hapart := (List.pairwise_cons.1 h.apart).1 b List.mem_cons_self
  -- The second entry finds its file as it was before the first.
  have hfindB := (hstep.find_iff hsparesB hapart.symm).1 hnext.find_eq
  have hne : place' ≠ place := by
    rintro rfl
    exact hapart ((Disk.find_eq_ok.1 hstep.find_eq).1.trans (Disk.find_eq_ok.1 hfindB).1.symm)
  obtain ⟨q', hrunB, hstepB⟩ := exists_applyEntry h.require h.opened hsparesB hfindB hnext.rewrites
  -- The first entry finds its file as the second has left it.
  have hq' := (h.perm (.swap b a entries)).step hrunB
  have hfindA := (hstepB.find_iff hsparesA hapart).2 hstep.find_eq
  obtain ⟨r', hrunA, hstepA⟩ := exists_applyEntry h.require hq'.opened
    (hq'.spares a List.mem_cons_self) hfindA hstep.rewrites
  refine ⟨q', r', hrunB, hrunA, ?_, ?_, ?_⟩
  · -- Both runs have written over the same two files.
    have hfileA := hstep.file_eq
    have hfileB := hstepB.file_eq
    have hcomm : (p.world.overwrite place new?).overwrite place' new?' =
        (p.world.overwrite place' new?').overwrite place new? :=
      congrArg (fun disk => { p.world with disk })
        (Disk.overwrite_comm hfileA new? hne hfileB new?')
    have hone := hstep.twins.overwrite
      ((Disk.node?_overwrite hfileA new? hne).trans hfileB) new?'
    have htwo := hstepB.twins.overwrite
      ((Disk.node?_overwrite hfileB new?' hne.symm).trans hfileA) new?
    exact (hone.trans hnext.twins).symm.trans (hcomm ▸ htwo.trans hstepA.twins)
  · rw [hstepA.processed, hstepB.processed, hnext.processed, hstep.processed]
    exact (Nat.zero_add _).symm
  · rw [hstepA.modified, hstepB.modified, hnext.modified, hstep.modified]
    dsimp only
    omega

/-! ### Runs -/

/-- **Separate entries are gone through in any order.** What this leaves are twins. -/
theorem applyEntries_perm (hperm : entries.Perm others) (h : Separate s entries p.world)
    (hrun : applyEntries s entries p = (q, none)) :
    ∃ q', applyEntries s others p = (q', none) ∧ q.Ahead {} q' := by
  induction hperm generalizing p q with
  | nil =>
      cases hrun
      exact ⟨p, rfl, .refl h.opened⟩
  | @cons entry rest rest' _ ih =>
      obtain ⟨mid, hentry, -, hrest⟩ := applyEntries_cons_finished hrun
      obtain ⟨q', hrest', hahead⟩ := ih (h.step hentry) hrest
      exact ⟨q', by rw [applyEntries, hentry]; exact hrest', hahead⟩
  | swap a b rest =>
      obtain ⟨mid, hb, -, hrun⟩ := applyEntries_cons_finished hrun
      obtain ⟨last, ha, -, hrest⟩ := applyEntries_cons_finished hrun
      obtain ⟨mid', last', ha', hb', hswapped⟩ := rewriteStep_swap h hb ha
      have hahead := applyEntries_ahead s hswapped ((h.step hb).step ha).sparesJournal
      rw [hrest] at hahead
      rcases hrest' : applyEntries s rest last' with ⟨q', halt?⟩
      rw [hrest'] at hahead
      obtain ⟨rfl : halt? = none, hahead⟩ := hahead
      refine ⟨q', ?_, hahead⟩
      rw [applyEntries, ha']
      dsimp only
      rw [applyEntries, hb']
      exact hrest'
  | trans hperm _ ih ih' =>
      obtain ⟨q', hrun', hahead⟩ := ih h hrun
      obtain ⟨q'', hrun'', hahead'⟩ := ih' (h.perm hperm) hrun'
      exact ⟨q'', hrun'', hahead.trans hahead'⟩

/-- Separate entries that can rewrite their files are got through. -/
theorem exists_applyEntries (h : Separate s entries p.world)
    (hready : ∀ entry ∈ entries, ∃ place content new?,
      p.world.disk.find (s.pathOf entry) = .ok (place, .file content) ∧
      Rewrites s entry content new?) :
    ∃ q, applyEntries s entries p = (q, none) := by
  induction entries generalizing p with
  | nil => exact ⟨p, rfl⟩
  | cons entry rest ih =>
      obtain ⟨place, content, new?, hfind, hrewrites⟩ := hready entry List.mem_cons_self
      obtain ⟨mid, hentry, hstep⟩ := exists_applyEntry h.require h.opened
        (h.spares entry List.mem_cons_self) hfind hrewrites
      obtain ⟨q, hrest⟩ := ih (h.step hentry) fun other hother => by
        obtain ⟨place', content', new?', hfind', hrewrites'⟩ :=
          hready other (List.mem_cons_of_mem _ hother)
        have hne := (List.pairwise_cons.1 h.apart).1 other hother
        exact ⟨place', content', new?',
          (hstep.find_iff (h.spares other (List.mem_cons_of_mem _ hother)) hne.symm).2 hfind',
          hrewrites'⟩
      exact ⟨q, by rw [applyEntries, hentry]; exact hrest⟩

/-- The unresolved names of a change set do not depend on its order. -/
theorem unresolved_perm {resolver : Resolver} {name : String} (hperm : entries.Perm others) :
    Unresolved resolver others name ↔ Unresolved resolver entries name := by
  simp only [Unresolved, hperm.mem_iff]

/-- **A run over entries for different files does the same in any order.** If each entry names a
file that is there, no two of them the same one, and the run gets through all of them, then the run
over any permutation gets through as well. It ends with the same counts, or fails for the same
missing names, and leaves the same disk, up to the file of a journal that is kept in one. -/
theorem apply_perm (hrequire : s.policy.requireExistingFiles = true) (hopen : w.Opened)
    (hthere : ∀ entry ∈ entries, ∃ place content,
      w.disk.find (s.pathOf entry) = .ok (place, .file content))
    (hapart : entries.Pairwise fun a b =>
      w.disk.locate (s.pathOf a) ≠ w.disk.locate (s.pathOf b))
    (hspares : ∀ entry ∈ entries, w.Spares (s.pathOf entry))
    (hdone : (∃ summary, (apply s entries w).2 = .ok summary) ∨
      ∃ names, (apply s entries w).2 = .error (.fault (.missingRequired names)))
    (hperm : entries.Perm others) :
    (apply s others w).2 = (apply s entries w).2 ∧
    (∀ place, w.journal.sink ≠ .file place →
      (apply s others w).1.disk.node? place = (apply s entries w).1.disk.node? place) ∧
    ((∀ place, w.journal.sink ≠ .file place) →
      (apply s others w).1.disk = (apply s entries w).1.disk) := by
  have hseparate : Separate s entries w := by
    refine ⟨hrequire, hopen, fun entry hentry => ?_, hspares, hapart⟩
    obtain ⟨place, content, hfind⟩ := hthere entry hentry
    exact ⟨place, (Disk.find_eq_ok.1 hfind).1⟩
  obtain ⟨q, hrun, hlogged⟩ := exists_applyEntries_of_done hdone
  obtain ⟨q', hrun', hahead⟩ := applyEntries_perm hperm hseparate hrun
  have htwins := hahead.twins.logged hlogged (logged_of_finished hrun')
  have hsink := sink_apply s entries w
  refine ⟨?_, fun place hplace => ?_, fun hoff => ?_⟩
  · have hmissing : q'.missing = q.missing := by
      refine MissingNames.ext_mem fun name => ?_
      rw [(completes_of_finished hrun').mem_missing, (completes_of_finished hrun).mem_missing,
        unresolved_perm hperm]
    rw [apply_of_finished hrun, apply_of_finished hrun', conclude_snd, conclude_snd, hmissing,
      hahead.summary_eq]
  · exact htwins.agree.node?_eq place fun hkept => hplace (hsink ▸ hkept)
  · exact htwins.agree.eq_of_none fun place hkept => hoff place (hsink ▸ hkept)

/-! ### An instance -/

/-- A disk with two files of one entry each, and no journal. -/
def sampleShelf : World where
  disk := { nodes := ["b.properties", "c.properties"].map fun file =>
    ([file], .file (String.ofList (sampleTable "1").render).toUTF8) }

/-- An entry that asks at the same path for what the second file has. -/
def sampleKept : FileEntry where
  file := "c.properties"
  changes := sampleEntry.changes.map fun change => { change with value := "1" }

/-- Both files are there, with the same table in them. -/
theorem find_sampleShelf {entry : FileEntry} (hentry : entry ∈ [sampleEntry, sampleKept]) :
    sampleShelf.disk.find (Setting.pathOf { base := "" } entry) =
      .ok ([entry.file], .file (String.ofList (sampleTable "1").render).toUTF8) := by
  have hpath : Setting.pathOf { base := "" } entry = entry.file := by
    simp [Setting.pathOf, FileName.join]
  have hname : FileName.IsPart entry.file := by
    revert entry
    decide
  rw [hpath]
  refine Disk.find_eq_ok.2 ⟨Disk.locate_part rfl hname, ?_⟩
  obtain rfl | rfl : entry = sampleEntry ∨ entry = sampleKept := by simpa using hentry
  · rfl
  · rfl

/-- The first file is written. -/
theorem rewrites_sampleEntry :
    Rewrites { base := "" } sampleEntry (String.ofList (sampleTable "1").render).toUTF8
      (some (String.ofList (sampleTable "").render).toUTF8) := by
  exact .written formatOf_sampleEntry
    (Document.ofBytes?_toUTF8 (Document.readsBack_properties (sampleTable "1")) rfl)
    setAll_sampleEntry rfl

/-- The second file has what is asked for, so it is kept. -/
theorem rewrites_sampleKept :
    Rewrites { base := "" } sampleKept (String.ofList (sampleTable "1").render).toUTF8 none := by
  have hknown : Format.ofFile? sampleKept.file = some .properties := by decide
  have hformat : formatOf sampleKept = .ok .properties := by rw [formatOf, hknown]
  have htext : Template.text (fun _ => none) "1" = "1" :=
    Template.text_of_not_mem _ (by decide)
  have hset : (Document.properties (sampleTable "1")).setAll
      (Setting.updates { base := "" } sampleKept.changes) =
        .ok (.properties (sampleTable "1"), false) := by
    simp only [Setting.updates, sampleKept, sampleEntry, List.map_cons, htext]
    rfl
  exact .kept hformat
    (Document.ofBytes?_toUTF8 (Document.readsBack_properties (sampleTable "1")) rfl) hset

/-- The run over the two files does the same in the other order. -/
theorem apply_perm_sampleShelf :
    (apply { base := "" } [sampleKept, sampleEntry] sampleShelf).2 =
      (apply { base := "" } [sampleEntry, sampleKept] sampleShelf).2 ∧
    (∀ place, sampleShelf.journal.sink ≠ .file place →
      (apply { base := "" } [sampleKept, sampleEntry] sampleShelf).1.disk.node? place =
        (apply { base := "" } [sampleEntry, sampleKept] sampleShelf).1.disk.node? place) ∧
    ((∀ place, sampleShelf.journal.sink ≠ .file place) →
      (apply { base := "" } [sampleKept, sampleEntry] sampleShelf).1.disk =
        (apply { base := "" } [sampleEntry, sampleKept] sampleShelf).1.disk) := by
  have hoff (place : Location) : sampleShelf.journal.sink ≠ .file place := fun h => by cases h
  have hopen : sampleShelf.Opened := fun place h => absurd h (hoff place)
  have hthere : ∀ entry ∈ [sampleEntry, sampleKept], ∃ place content,
      sampleShelf.disk.find (Setting.pathOf { base := "" } entry) = .ok (place, .file content) :=
    fun entry hentry => ⟨_, _, find_sampleShelf hentry⟩
  have hapart : [sampleEntry, sampleKept].Pairwise fun a b =>
      sampleShelf.disk.locate (Setting.pathOf { base := "" } a) ≠
        sampleShelf.disk.locate (Setting.pathOf { base := "" } b) := by
    have hfirst := (Disk.find_eq_ok.1 (find_sampleShelf (List.mem_cons_self ..))).1
    have hsecond := (Disk.find_eq_ok.1 (find_sampleShelf (List.mem_cons_of_mem sampleEntry
      (List.mem_singleton_self sampleKept)))).1
    have hne : sampleEntry.file ≠ sampleKept.file := by decide
    simpa [hfirst, hsecond] using hne
  have hspares : ∀ entry ∈ [sampleEntry, sampleKept],
      sampleShelf.Spares (Setting.pathOf { base := "" } entry) := fun _ _ place _ => hoff place
  have hseparate : Separate { base := "" } [sampleEntry, sampleKept] sampleShelf := by
    refine ⟨rfl, hopen, fun entry hentry => ?_, hspares, hapart⟩
    exact ⟨_, (Disk.find_eq_ok.1 (find_sampleShelf hentry)).1⟩
  obtain ⟨q, hrun⟩ := exists_applyEntries (p := { world := sampleShelf }) hseparate <| by
    intro entry hentry
    obtain rfl | rfl : entry = sampleEntry ∨ entry = sampleKept := by simpa using hentry
    · exact ⟨_, _, _, find_sampleShelf hentry, rewrites_sampleEntry⟩
    · exact ⟨_, _, _, find_sampleShelf hentry, rewrites_sampleKept⟩
  exact apply_perm rfl hopen hthere hapart hspares (done_of_applyEntries hrun) (.swap _ _ _)

end ConfigGraft.ChangeSet
