import ConfigGraft.Proofs.ChangeSet.Ahead
import ConfigGraft.Proofs.Disk.Overwrite

/-!
# What an entry makes of its file

A run deals with an entry by looking at the bytes of its file and nothing else: they hold a document
in the format of the entry, the changes are made to it, and if they made a difference the bytes give
way to others. Where the file is there and the journal is kept elsewhere, this is all that happens
to the disk, and it happens whatever other files hold.

## Main results

* `RewriteStep.find_iff` — other files are what they were;
* `exists_rewriteStep` — an entry that a run gets through rewrites its file;
* `exists_applyEntry` — **an entry that can rewrite its file is got through.**
-/

namespace ConfigGraft.ChangeSet

variable {s : Setting} {entry : FileEntry} {p q : Progress} {place : Location}
  {content : ByteArray} {new? new?' : Option ByteArray}

/-- What an entry makes of the bytes of its file if nothing fails: other bytes, or none if its
changes make no difference. -/
inductive Rewrites (s : Setting) (entry : FileEntry) (content : ByteArray) :
    Option ByteArray → Prop
  | kept {format : Format} {before after : Document} :
      formatOf entry = .ok format → Document.ofBytes? format content = some before →
      before.setAll (s.updates entry.changes) = .ok (after, false) → Rewrites s entry content none
  | written {format : Format} {before after : Document} {text : String} :
      formatOf entry = .ok format → Document.ofBytes? format content = some before →
      before.setAll (s.updates entry.changes) = .ok (after, true) → after.render? = some text →
      Rewrites s entry content (some text.toUTF8)

/-- Bytes are rewritten in one way at most. -/
theorem Rewrites.unique (h : Rewrites s entry content new?) (h' : Rewrites s entry content new?') :
    new?' = new? := by
  cases h with
  | kept hformat hread hset =>
      cases h' with
      | kept => rfl
      | written hformat' hread' hset' =>
          cases hformat.symm.trans hformat'
          cases hread.symm.trans hread'
          cases hset.symm.trans hset'
  | written hformat hread hset htext =>
      cases h' with
      | kept hformat' hread' hset' =>
          cases hformat.symm.trans hformat'
          cases hread.symm.trans hread'
          cases hset.symm.trans hset'
      | written hformat' hread' hset' htext' =>
          cases hformat.symm.trans hformat'
          cases hread.symm.trans hread'
          cases hset.symm.trans hset'
          cases htext.symm.trans htext'
          rfl

/-- A step that **rewrites** a file: it is found, its bytes are written over, and the entry is
counted. Apart from records nothing else happens. -/
structure RewriteStep (s : Setting) (entry : FileEntry) (p q : Progress) (place : Location)
    (content : ByteArray) (new? : Option ByteArray) : Prop where
  find_eq : p.world.disk.find (s.pathOf entry) = .ok (place, .file content)
  rewrites : Rewrites s entry content new?
  twins : (p.world.overwrite place new?).Twins q.world
  processed : q.summary.processed = p.summary.processed + 1
  modified : q.summary.modified = p.summary.modified + if new?.isSome then 1 else 0

/-- The file that is rewritten is there before. -/
theorem RewriteStep.file_eq (h : RewriteStep s entry p q place content new?) :
    p.world.disk.node? place = some (.file content) :=
  (Disk.find_eq_ok.1 h.find_eq).2

/-- **Other names lead to what they led to.** -/
theorem RewriteStep.find_iff {name : String} {other : Location} {node : Disk.Node}
    (h : RewriteStep s entry p q place content new?) (hspares : p.world.Spares name)
    (hne : p.world.disk.locate name ≠ p.world.disk.locate (s.pathOf entry)) :
    q.world.disk.find name = .ok (other, node) ↔
      p.world.disk.find name = .ok (other, node) := by
  have hplace := (Disk.find_eq_ok.1 h.find_eq).1
  have hlocate := (Disk.sameShape_overwrite h.file_eq new?).locate_eq name
  have hoverwritten : (p.world.overwrite place new?).Spares name := by
    intro other hother
    exact hspares other (hlocate ▸ hother)
  rw [h.twins.find_eq_ok hoverwritten]
  by_cases hother : other = place
  · -- The name leads elsewhere, before and after.
    have hnot : p.world.disk.locate name ≠ .ok other := hother ▸ hplace ▸ hne
    rw [World.overwrite, Disk.find_eq_ok, Disk.find_eq_ok, hlocate]
    exact iff_of_false (fun hfind => hnot hfind.1) fun hfind => hnot hfind.1
  · exact Disk.find_overwrite h.file_eq new? hother

/-- **An entry that a run gets through rewrites its file,** if the file has to be there. -/
theorem exists_rewriteStep (hrequire : s.policy.requireExistingFiles = true)
    (hopen : p.world.Opened) (hspares : p.world.Spares (s.pathOf entry))
    (hrun : applyEntry s entry p = (q, none)) :
    ∃ place content new?, RewriteStep s entry p q place content new? := by
  have hstep := applyEntry_step s entry p
  rw [hrun] at hstep
  -- Records leave the file where it is, so it has been read as what it held.
  have hfound {format : Format} {w : World} {before : Document}
      (hread : EntryRead s entry p format w before) :
      ∃ place content, p.world.disk.find (s.pathOf entry) = .ok (place, .file content) ∧
        Document.ofBytes? format content = some before := by
    have hthere : w.disk.has (s.pathOf entry) = true := by
      rw [(hread.logged.sameShape hopen).has_eq]
      exact has_of_target hrequire hread.target_eq
    obtain ⟨place, content, hfind⟩ := Document.exists_file_of_load hthere hread.load_eq
    have hbefore := ((hread.logged.spares_iff.2 hspares).find_eq_ok hread.logged).1 hfind
    exact ⟨place, content, hbefore, (Document.load_of_find hfind).1 hread.load_eq⟩
  cases hstep with
  | @kept format w v before after hread hset hlogged =>
      obtain ⟨place, content, hfind, hbytes⟩ := hfound hread
      exact ⟨place, content, none, hfind, .kept hread.formatOf_eq hbytes hset,
        (hread.logged.trans hlogged).twins hopen, rfl, rfl⟩
  | @written format w v u before after disk hread hset hlogged hstore hreported =>
      obtain ⟨place, content, hfind, hbytes⟩ := hfound hread
      have hv : p.world.Logged v := hread.logged.trans hlogged
      have hfind' : v.disk.find (s.pathOf entry) = .ok (place, .file content) :=
        ((hv.spares_iff.2 hspares).find_eq_ok hv).2 hfind
      have hthere : v.disk.has (s.pathOf entry) = true := by rw [Disk.has, hfind']
      obtain ⟨text, place', content', htext, hfind'', rfl⟩ := Document.store_eq_none hthere hstore
      obtain ⟨rfl, -⟩ := Prod.mk.inj (Except.ok.inj (hfind''.symm.trans hfind'))
      refine ⟨place', content, some text.toUTF8, hfind,
        .written hread.formatOf_eq hbytes hset htext, ?_, rfl, rfl⟩
      have hstored := (hv.twins hopen).overwrite (Disk.find_eq_ok.1 hfind).2 (some text.toUTF8)
      exact hstored.trans (hreported.twins hstored.symm.opened)

/-- **An entry that can rewrite its file is got through,** and does so. -/
theorem exists_applyEntry (hrequire : s.policy.requireExistingFiles = true)
    (hopen : p.world.Opened) (hspares : p.world.Spares (s.pathOf entry))
    (hfind : p.world.disk.find (s.pathOf entry) = .ok (place, .file content))
    (hrewrites : Rewrites s entry content new?) :
    ∃ q, applyEntry s entry p = (q, none) ∧ RewriteStep s entry p q place content new? := by
  suffices h : ∃ q, applyEntry s entry p = (q, none) by
    obtain ⟨q, hrun⟩ := h
    obtain ⟨place', content', new?', hstep⟩ := exists_rewriteStep hrequire hopen hspares hrun
    cases hfind.symm.trans hstep.find_eq
    obtain rfl := hrewrites.unique hstep.rewrites
    exact ⟨q, hrun, hstep⟩
  have hthere : p.world.disk.has (s.pathOf entry) = true := by rw [Disk.has, hfind]
  have htarget : target s p.world.disk entry = .ok (s.pathOf entry) := by
    rw [target, hthere, Bool.not_true, Bool.and_false, if_neg Bool.false_ne_true]
  -- Whatever is recorded on the way, the file is found.
  have hfound {v : World} (hlogged : p.world.Logged v) :
      v.disk.find (s.pathOf entry) = .ok (place, .file content) :=
    ((hlogged.spares_iff.2 hspares).find_eq_ok hlogged).2 hfind
  obtain ⟨format, before, after, dirty, hformat, hread, hset, htext⟩ : ∃ format before after dirty,
      formatOf entry = .ok format ∧ Document.ofBytes? format content = some before ∧
      before.setAll (s.updates entry.changes) = .ok (after, dirty) ∧
      (dirty = true → ∃ text, after.render? = some text) := by
    cases hrewrites with
    | kept hformat hread hset =>
        exact ⟨_, _, _, _, hformat, hread, hset, fun h => absurd h Bool.false_ne_true⟩
    | written hformat hread hset htext =>
        exact ⟨_, _, _, _, hformat, hread, hset, fun _ => ⟨_, htext⟩⟩
  rw [applyEntry, htarget, hformat]
  dsimp only
  generalize hnoted : p.note (processingRecord (s.pathOf entry) format entry.changes.length) = n
  have hn : p.world.Logged n.world := hnoted ▸ .note _ (.refl _)
  obtain ⟨v, hlogged, hchanges⟩ := applyChanges_of_setAll_ok hset false n
  rw [applyFile_of_load ((Document.load_of_find (hfound hn)).2 hread), hchanges]
  cases dirty with
  | false => exact ⟨_, rfl⟩
  | true =>
      obtain ⟨text, htext⟩ := htext rfl
      have hfind' := hfound (hn.trans hlogged)
      have hthere' : v.disk.has (s.pathOf entry) = true := by rw [Disk.has, hfind']
      have hstore : Document.store v.disk (s.pathOf entry) after =
          (v.disk.put place (.file text.toUTF8), none) := by
        simp only [Document.store, htext, Document.makeRoom_of_has hthere', Disk.writeBytes,
          Disk.target_of_find hfind']
      simp only [Bool.or_true, hstore]
      exact ⟨_, rfl⟩

end ConfigGraft.ChangeSet
