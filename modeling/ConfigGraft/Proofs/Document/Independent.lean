import ConfigGraft.Proofs.Document.Again
import ConfigGraft.Proofs.Document.Difference
import ConfigGraft.Proofs.Nested.Reordered

/-!
# Independent updates

Updates of a tree are independent if none of their paths leads to another one, and updates of a
table of properties if their paths are different. Such updates can share mappings on their ways, and
whichever comes first makes them; but what comes of all of them does not depend on their order, and
neither does what each of them says about the text that it has found.

## Main results

* `Document.setAll_eq_setEach` — what a list of updates says as a whole, and what each of them;
* `Document.Spells.setEach_eq_ok_iff` — what independent updates do to a tree, without any order;
* `Document.setEach_perm` — **independent updates can be set in any order;**
* `Document.Reordered.isSome_render?` — a document that is reordered can be written as before.
-/

namespace ConfigGraft

/-- Paths are **independent** in a format if neither leads to the other. In a table of properties
the whole path is a key, so there it is enough that they are different. -/
def KeyPath.Independent (format : Format) (p q : KeyPath) : Prop :=
  match format with
  | .properties => p ≠ q
  | _ => ¬ p.Meets q

/-- **Putting entries with different keys into a table** gives the same in any order. -/
theorem Properties.insertAll_perm {entries others : List (String × String)}
    (hperm : entries.Perm others) (hkeys : entries.Pairwise fun e f => e.1 ≠ f.1)
    (table : Properties) : table.insertAll entries = table.insertAll others := by
  induction hperm generalizing table with
  | nil => rfl
  | cons entry _ ih => exact ih hkeys.of_cons _
  | swap entry other rest =>
      have hne : other.1 ≠ entry.1 := List.rel_of_pairwise_cons hkeys List.mem_cons_self
      have hcomm : (table.insert other.1 other.2).insert entry.1 entry.2 =
          (table.insert entry.1 entry.2).insert other.1 other.2 := by
        apply value?_ext
        intro key
        simp only [value?_insert]
        by_cases hentry : key = entry.1
        · rw [if_pos hentry, if_neg (fun hother => hne (hother.symm.trans hentry)), if_pos hentry]
        · rw [if_neg hentry, if_neg hentry]
      exact congrArg (insertAll rest) hcomm
  | trans hleft _ ih ih' =>
      exact (ih hkeys table).trans (ih' ((hleft.pairwise_iff Ne.symm).1 hkeys) table)

namespace Document

/-- **Documents that are the same up to the order of keys** inside mappings. Tables of properties
have their keys in one order only. -/
def Reordered : Document → Document → Prop
  | .yaml es, .yaml fs => Nested.Reordered es fs
  | .json es, .json fs => Nested.Reordered es fs
  | .toml es, .toml fs => Nested.Reordered es fs
  | .properties t, .properties u => t = u
  | _, _ => False

/-! ### What each update says -/

/-- Sets texts at paths, from the first to the last, and says of each path whether its text was
another one before it was set. -/
def setEach : List (KeyPath × String) → Document →
    Except SealedMapping (Document × List (KeyPath × Bool))
  | [], document => .ok (document, [])
  | (path, text) :: rest, document =>
    match document.set path text with
    | .error crash => .error crash
    | .ok (next, changed) =>
      (setEach rest next).map fun (last, report) => (last, (path, changed) :: report)

/-- As a whole, a list of updates says whether any of them was told of another text. -/
theorem setAll_eq_setEach (updates : List (KeyPath × String)) (document : Document) :
    document.setAll updates =
      (document.setEach updates).map fun (last, report) => (last, report.any Prod.snd) := by
  induction updates generalizing document with
  | nil => rfl
  | cons update rest ih =>
      obtain ⟨path, text⟩ := update
      rw [setAll, setEach]
      rcases document.set path text with crash | ⟨next, changed⟩
      · rfl
      · simp only [ih]
        rcases next.setEach rest with crash | ⟨last, report⟩ <;> rfl

/-- Setting a list with reports is setting its first text and then the others. -/
theorem setEach_cons_eq_ok {update : KeyPath × String} {rest : List (KeyPath × String)}
    {document last : Document} {report : List (KeyPath × Bool)} :
    document.setEach (update :: rest) = .ok (last, report) ↔
      ∃ next changed later, document.set update.1 update.2 = .ok (next, changed) ∧
        next.setEach rest = .ok (last, later) ∧ report = (update.1, changed) :: later := by
  rw [setEach]
  rcases document.set update.1 update.2 with crash | ⟨next, changed⟩
  · simp
  · simp only [map_eq_ok, Except.ok.injEq, Prod.mk.injEq]
    constructor
    · rintro ⟨⟨last', later⟩, hrest, rfl, rfl⟩
      exact ⟨next, changed, later, ⟨rfl, rfl⟩, hrest, rfl⟩
    · rintro ⟨_, _, later, ⟨rfl, rfl⟩, hrest, rfl⟩
      exact ⟨(last, later), hrest, rfl, rfl⟩

/-! ### Trees -/

section

variable {κ ν : Type} [Nested κ ν] {make : List (κ × ν) → Document}

/-- One update is set in a tree unless a closed mapping is in the way of it. -/
theorem Spells.set_eq_ok_iff_passable (hspells : Spells make) {path : KeyPath} {text : String}
    {es : List (κ × ν)} {next : Document} {changed : Bool} :
    (make es).set path text = .ok (next, changed) ↔ Nested.Passable path.segments es ∧
      next = make (Nested.assign text path.segments es) ∧
      changed = ((make es).get? path != some text) := by
  have hchanged {b : Bool} {next : Document} (hset : (make es).set path text = .ok (next, b)) :
      b = ((make es).get? path != some text) := by
    rw [Bool.eq_iff_iff, changed_iff hset, bne_iff_ne]
  constructor
  · intro h
    obtain ⟨fs, hset, rfl⟩ := hspells.set_eq_ok_iff.1 h
    obtain ⟨hpassable, rfl⟩ := Nested.set_eq_ok hset
    exact ⟨hpassable, rfl, hchanged h⟩
  · rintro ⟨hpassable, rfl, rfl⟩
    obtain ⟨b, hset⟩ := Nested.set_of_passable text hpassable
    have h := hspells.set_eq_ok_iff.2 ⟨_, hset, rfl⟩
    rwa [hchanged h] at h

/-- What is found at a path is not touched by an update apart from it. -/
theorem Spells.get?_assign (hspells : Spells make) {path other : KeyPath}
    (hapart : ¬ path.Meets other) {es : List (κ × ν)}
    (hpassable : Nested.Passable path.segments es) (text : String) :
    (make (Nested.assign text path.segments es)).get? other = (make es).get? other := by
  have hset : (make es).set path text = .ok (_, _) :=
    hspells.set_eq_ok_iff_passable.2 ⟨hpassable, rfl, rfl⟩
  have hne : path ≠ other := fun heq => hapart (heq ▸ path.meets_self)
  rw [get?_set (hspells.format_ne es) hset, if_neg hne, if_neg hapart]

variable [Nested.Lawful κ ν]

/-- **What independent updates do to a tree,** without any order: none of them meets a closed
mapping, and each of them says what it would say if it were the only one. -/
theorem Spells.setEach_eq_ok_iff (hspells : Spells make) {updates : List (KeyPath × String)}
    (hapart : updates.Pairwise fun update other => ¬ update.1.Meets other.1) {es : List (κ × ν)}
    {last : Document} {report : List (KeyPath × Bool)} :
    (make es).setEach updates = .ok (last, report) ↔
      (∀ update ∈ updates, Nested.Passable update.1.segments es) ∧
      last = make (Nested.assignAll (updates.map fun u => (u.1.segments, u.2)) es) ∧
      report = updates.map fun u => (u.1, (make es).get? u.1 != some u.2) := by
  induction updates generalizing es report with
  | nil => simp [setEach, Nested.assignAll, eq_comm]
  | cons update rest ih =>
      obtain ⟨hhead, hrest⟩ := List.pairwise_cons.1 hapart
      have hsegments (later : KeyPath × String) (hmem : later ∈ rest) :
          Nested.Apart later.1.segments update.1.segments :=
        Nested.Apart.symm (not_or.1 (hhead later hmem))
      have hreport (hpassable : Nested.Passable update.1.segments es) :
          (rest.map fun u => (u.1,
            (make (Nested.assign update.2 update.1.segments es)).get? u.1 != some u.2)) =
          rest.map fun u => (u.1, (make es).get? u.1 != some u.2) := by
        refine List.map_congr_left fun later hmem => ?_
        rw [hspells.get?_assign (hhead later hmem) hpassable]
      rw [setEach_cons_eq_ok, List.forall_mem_cons]
      constructor
      · rintro ⟨next, changed, later, hset, hlater, rfl⟩
        obtain ⟨hpassable, rfl, rfl⟩ := hspells.set_eq_ok_iff_passable.1 hset
        obtain ⟨hopen, rfl, rfl⟩ := (ih hrest).1 hlater
        exact ⟨⟨hpassable, fun later hmem =>
            Nested.passable_of_assign (hsegments later hmem) hpassable (hopen later hmem)⟩,
          rfl, congrArg _ (hreport hpassable)⟩
      · rintro ⟨⟨hpassable, hopen⟩, rfl, rfl⟩
        refine ⟨_, _, _, hspells.set_eq_ok_iff_passable.2 ⟨hpassable, rfl, rfl⟩,
          (ih hrest).2 ⟨fun later hmem => Nested.passable_assign (hopen later hmem) _ _, rfl, rfl⟩,
          congrArg _ (hreport hpassable).symm⟩

/-- Independent updates of a tree can be set in any order. -/
theorem Spells.setEach_perm (hspells : Spells make) {updates others : List (KeyPath × String)}
    (hperm : updates.Perm others)
    (hapart : updates.Pairwise fun update other => ¬ update.1.Meets other.1) {es : List (κ × ν)}
    {last : Document} {report : List (KeyPath × Bool)}
    (h : (make es).setEach updates = .ok (last, report)) :
    ∃ fs gs report', last = make fs ∧ (make es).setEach others = .ok (make gs, report') ∧
      Nested.Reordered fs gs ∧ report.Perm report' := by
  have hothers : others.Pairwise fun update other => ¬ update.1.Meets other.1 :=
    (hperm.pairwise_iff fun h h' => h (Or.symm h')).1 hapart
  obtain ⟨hopen, rfl, rfl⟩ := (hspells.setEach_eq_ok_iff hapart).1 h
  refine ⟨_, _, _, rfl, (hspells.setEach_eq_ok_iff hothers).2
    ⟨fun update hmem => hopen update (hperm.mem_iff.2 hmem), rfl, rfl⟩, ?_, hperm.map _⟩
  refine Nested.assignAll_perm (hperm.map _) (List.pairwise_map.2 ?_) es
  exact hapart.imp fun h => not_or.1 h

end

/-! ### Tables of properties -/

/-- What updates at different keys do to a table, without any order. -/
theorem setEach_properties {updates : List (KeyPath × String)}
    (hkeys : updates.Pairwise fun update other => update.1 ≠ other.1) (table : Properties) :
    (Document.properties table).setEach updates =
      .ok (.properties (table.insertAll (updates.map fun u => (u.1.text, u.2))),
        updates.map fun u => (u.1, table.value? u.1.text != some u.2)) := by
  induction updates generalizing table with
  | nil => rfl
  | cons update rest ih =>
      obtain ⟨hhead, hrest⟩ := List.pairwise_cons.1 hkeys
      refine setEach_cons_eq_ok.2 ⟨_, _, _, rfl, ih hrest _, ?_⟩
      refine congrArg ((update.1, table.value? update.1.text != some update.2) :: ·) ?_
      refine List.map_congr_left fun later hmem => ?_
      have hne : later.1.text ≠ update.1.text :=
        fun heq => hhead later hmem (KeyPath.text_injective heq).symm
      rw [Properties.value?_insert, if_neg hne]

/-! ### Documents -/

/-- **Independent updates can be set in any order.** If they can be set in one order, they can be
set in every other one, which gives the same document up to the order of keys inside mappings, and
each of them says the same about the text that was there before. -/
theorem setEach_perm {document last : Document} {updates others : List (KeyPath × String)}
    {report : List (KeyPath × Bool)} (hperm : updates.Perm others)
    (hapart : updates.Pairwise fun update other => update.1.Independent document.format other.1)
    (h : document.setEach updates = .ok (last, report)) :
    ∃ last' report', document.setEach others = .ok (last', report') ∧ last.Reordered last' ∧
      report.Perm report' := by
  cases document with
  | yaml es =>
      obtain ⟨fs, gs, report', rfl, hothers, hsame, hreport⟩ :=
        spells_yaml.setEach_perm hperm hapart h
      exact ⟨.yaml gs, report', hothers, hsame, hreport⟩
  | json es =>
      obtain ⟨fs, gs, report', rfl, hothers, hsame, hreport⟩ :=
        spells_json.setEach_perm hperm hapart h
      exact ⟨.json gs, report', hothers, hsame, hreport⟩
  | toml es =>
      obtain ⟨fs, gs, report', rfl, hothers, hsame, hreport⟩ :=
        spells_toml.setEach_perm hperm hapart h
      exact ⟨.toml gs, report', hothers, hsame, hreport⟩
  | properties table =>
      have hothers : others.Pairwise fun update other => update.1 ≠ other.1 :=
        (hperm.pairwise_iff Ne.symm).1 hapart
      rw [setEach_properties hapart] at h
      obtain ⟨rfl, rfl⟩ := Prod.mk.inj (Except.ok.inj h)
      refine ⟨_, _, setEach_properties hothers table, ?_, hperm.map _⟩
      refine Properties.insertAll_perm (hperm.map _) (List.pairwise_map.2 ?_) table
      exact hapart.imp fun hne heq => hne (KeyPath.text_injective heq)

end Document

/-! ### What can be written -/

namespace Yaml

/-- With two entries or more, no mapping can be taken for a tag. -/
theorem Value.isWritable_mapping_of_two (tagged : Bool) (e f : Value × Value) (rest : Mapping) :
    (mapping (e :: f :: rest)).isWritable tagged = entriesWritable (e :: f :: rest) := by
  simp [isWritable]

/-- A mapping that is reordered can be written as before. -/
theorem isWritable_eq_of_reordered {es fs : Mapping} (h : Nested.Reordered es fs) :
    (∀ tagged, (Value.mapping fs).isWritable tagged = (Value.mapping es).isWritable tagged) ∧
      Value.entriesWritable fs = Value.entriesWritable es := by
  induction h with
  | refl es => exact ⟨fun _ => rfl, rfl⟩
  | @swap k l _ v w es =>
      have hentries : Value.entriesWritable ((l, w) :: (k, v) :: es) =
          Value.entriesWritable ((k, v) :: (l, w) :: es) := by
        simp only [Value.entriesWritable, Bool.and_left_comm, Bool.and_assoc]
      refine ⟨fun tagged => ?_, hentries⟩
      rw [Value.isWritable_mapping_of_two, Value.isWritable_mapping_of_two, hentries]
  | @behind e es fs h ih =>
      have hentries : Value.entriesWritable (e :: fs) = Value.entriesWritable (e :: es) := by
        simp only [Value.entriesWritable, ih.2]
      refine ⟨fun tagged => ?_, hentries⟩
      have hlength := h.length_eq
      cases es with
      | nil => rw [List.length_eq_zero_iff.1 hlength.symm]
      | cons f es =>
          obtain ⟨g, gs, rfl⟩ := List.exists_cons_of_length_eq_add_one hlength.symm
          rw [Value.isWritable_mapping_of_two, Value.isWritable_mapping_of_two, hentries]
  | @within k is js es _ ih =>
      have hvalue : (Value.mapping js).isWritable false = (Value.mapping is).isWritable false :=
        ih.1 false
      have hentries : Value.entriesWritable ((k, .mapping js) :: es) =
          Value.entriesWritable ((k, .mapping is) :: es) := by
        simp only [Value.entriesWritable, hvalue]
      refine ⟨fun tagged => ?_, hentries⟩
      cases es with
      | nil =>
          show (Value.mapping [(k, .mapping js)]).isWritable tagged =
            (Value.mapping [(k, .mapping is)]).isWritable tagged
          rw [Value.isWritable, Value.isWritable, hvalue]
      | cons f es =>
          exact (Value.isWritable_mapping_of_two ..).trans
            (hentries.trans (Value.isWritable_mapping_of_two ..).symm)
  | trans _ _ ih ih' =>
      exact ⟨fun tagged => (ih'.1 tagged).trans (ih.1 tagged), ih'.2.trans ih.2⟩

end Yaml

/-- **A document that is reordered can be written as before.** -/
theorem Document.Reordered.isSome_render? {document other : Document}
    (h : document.Reordered other) : other.render?.isSome = document.render?.isSome := by
  cases document <;> cases other <;> first | exact h.elim | skip
  · rename_i es fs
    simp only [Document.render?, Option.isSome_map, Yaml.render?,
      (Yaml.isWritable_eq_of_reordered h).1]
    split <;> rfl
  · rfl
  · rfl
  · rfl

end ConfigGraft
