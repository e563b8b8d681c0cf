import ConfigGraft.Proofs.ChangeSet.DryRun

/-!
# Supplying the missing names

A check names the required variables that have no value. Whoever supplies them does so with a
further source behind those that are there: it is asked only where the others have no value. So it
can take names off the list and put none on it, and a template that mentions none of the names it
supplies expands to the same text.

## Main results

* `Resolver.ofSources_pair`, `Chain.value?_append` — a further source is asked where the others have
  no value;
* `Template.mem_unresolved_supplied` — what stays unresolved in a template;
* `checkEntries_eq_ok` — what a check that gets through has found;
* `check_supplied` — **supplying the names that were reported is enough.**
-/

namespace ConfigGraft

/-! ### Sources -/

/-- Of two lists of sources, the second is asked where the first has no value. -/
theorem Resolver.ofSources_append (front back : List Resolver) (name : String) :
    ofSources (front ++ back) name = (ofSources front name).or (ofSources back name) :=
  List.findSome?_append

/-- A single source is asked itself. -/
theorem Resolver.ofSources_singleton (source : Resolver) : ofSources [source] = source := by
  funext name
  exact List.findSome?_singleton

/-- A further source is asked where the first has no value. -/
theorem Resolver.ofSources_pair (first further : Resolver) (name : String) :
    ofSources [first, further] name = (first name).or (further name) := by
  rw [← List.singleton_append, ofSources_append, ofSources_singleton, ofSources_singleton]

/-- So it is in a chain of variables to which a source is appended. -/
theorem Chain.value?_append (chain : Chain) (further : Variables) :
    (Chain.mk (chain.sources ++ [further])).value? =
      Resolver.ofSources [chain.value?, further.value?] := by
  funext name
  rw [Resolver.ofSources_pair, value?, List.map_append, Resolver.ofSources_append,
    List.map_singleton, Resolver.ofSources_singleton, value?]

/-! ### Templates -/

namespace Template

variable {value? further : Resolver} {template name : String}

/-- The names of all variables that a template mentions, with or without a default. -/
def mentioned (template : String) : List String :=
  (pieces template.toList).filterMap fun
    | .plain _ => none
    | .hole p => some (String.ofList p.name)

/-- A placeholder is missing with a further source if it was missing before and the source does not
help. -/
theorem isMissing_supplied {p : Placeholder} :
    isMissing (Resolver.ofSources [value?, further]) p = true ↔
      isMissing value? p = true ∧ further (String.ofList p.name) = none := by
  simp only [isMissing, Resolver.ofSources_pair, Bool.and_eq_true, Option.isNone_iff_eq_none,
    Option.or_eq_none_iff]
  exact and_right_comm

/-- **A name stays unresolved exactly if the further source has no value for it.** -/
theorem mem_unresolved_supplied :
    name ∈ unresolved (Resolver.ofSources [value?, further]) template ↔
      name ∈ unresolved value? template ∧ further name = none := by
  simp only [unresolved, List.mem_filterMap]
  constructor
  · rintro ⟨piece, hpiece, hname⟩
    cases piece with
    | plain c => cases hname
    | hole p =>
        obtain ⟨hmissing, hp⟩ := Option.ite_none_right_eq_some.1 hname
        obtain ⟨hbefore, hnone⟩ := isMissing_supplied.1 hmissing
        obtain rfl := Option.some.inj hp
        exact ⟨⟨_, hpiece, if_pos hbefore⟩, hnone⟩
  · rintro ⟨⟨piece, hpiece, hname⟩, hnone⟩
    cases piece with
    | plain c => cases hname
    | hole p =>
        obtain ⟨hbefore, hp⟩ := Option.ite_none_right_eq_some.1 hname
        obtain rfl := Option.some.inj hp
        exact ⟨_, hpiece, if_pos (isMissing_supplied.2 ⟨hbefore, hnone⟩)⟩

/-- The text of a template depends on the values of the names that it mentions. -/
theorem text_congr {other? : Resolver}
    (h : ∀ name ∈ mentioned template, other? name = value? name) :
    text other? template = text value? template := by
  simp only [text, expand, expandPieces_fst, List.flatMap_def]
  refine congrArg (fun parts => String.ofList parts.flatten)
    (List.map_congr_left fun piece hpiece => ?_)
  cases piece with
  | plain c => rfl
  | hole p =>
      have hname : String.ofList p.name ∈ mentioned template :=
        List.mem_filterMap.2 ⟨_, hpiece, rfl⟩
      simp only [fill, h _ hname]

end Template

namespace ChangeSet

/-! ### Checks -/

/-- An entry passes a check if its file and its format are right. -/
def Accepted (s : Setting) (disk : Disk) (entry : FileEntry) : Prop :=
  (∃ path, target s disk entry = .ok path) ∧ ∃ format, formatOf entry = .ok format

/-- **A check that gets through has accepted all entries and found their unresolved names.** -/
theorem checkEntries_eq_ok {s : Setting} {disk : Disk} {entries : List FileEntry}
    {missing m : MissingNames} :
    checkEntries s disk entries missing = .ok m ↔
      (∀ entry ∈ entries, Accepted s disk entry) ∧ gatherEntries s.chain entries missing = m := by
  induction entries generalizing missing with
  | nil => simp [checkEntries, gatherEntries]
  | cons entry rest ih =>
      rw [List.forall_mem_cons, gatherEntries, and_assoc]
      constructor
      · intro h
        obtain ⟨htarget, hformat, hrest⟩ := checkEntries_cons_eq_ok h
        exact ⟨⟨htarget, hformat⟩, ih.1 hrest⟩
      · rintro ⟨⟨⟨path, htarget⟩, format, hformat⟩, hrest⟩
        simp only [checkEntries, htarget, hformat]
        exact ih.2 hrest

/-- A check reports the unresolved names, and no others. -/
theorem mem_of_check {s : Setting} {disk : Disk} {entries : List FileEntry} {m : MissingNames}
    (h : check s entries disk = .ok m) (name : String) :
    name ∈ m ↔ Unresolved s.chain entries name := by
  obtain ⟨-, rfl⟩ := checkEntries_eq_ok.1 h
  rw [mem_gatherEntries]
  exact or_iff_right (MissingNames.not_mem_none name)

/-! ### A further source -/

/-- The setting with a further source behind those that are there. -/
def Setting.supplied (s : Setting) (further : Resolver) : Setting :=
  { s with chain := Resolver.ofSources [s.chain, further] }

/-- The further source is asked where the chain has no value. -/
theorem Setting.chain_supplied (s : Setting) (further : Resolver) (name : String) :
    (s.supplied further).chain name = (s.chain name).or (further name) :=
  Resolver.ofSources_pair ..

/-- What stays unresolved in a change set are the names that the source has no value for. -/
theorem unresolved_supplied {s : Setting} {further : Resolver} {entries : List FileEntry}
    {name : String} :
    Unresolved (s.supplied further).chain entries name ↔
      Unresolved s.chain entries name ∧ further name = none := by
  simp only [Unresolved, Setting.supplied, Template.mem_unresolved_supplied]
  constructor
  · rintro ⟨entry, hentry, change, hchange, hname, hnone⟩
    exact ⟨⟨entry, hentry, change, hchange, hname⟩, hnone⟩
  · rintro ⟨⟨entry, hentry, change, hchange, hname⟩, hnone⟩
    exact ⟨entry, hentry, change, hchange, hname, hnone⟩

/-- What a check reports with a further source: the names that it has no value for either. -/
theorem exists_check_supplied {s : Setting} {entries : List FileEntry} {disk : Disk}
    {m : MissingNames} (h : check s entries disk = .ok m) (further : Resolver) :
    ∃ rest, check (s.supplied further) entries disk = .ok rest ∧
      ∀ name, name ∈ rest ↔ name ∈ m ∧ further name = none := by
  obtain ⟨haccepted, -⟩ := checkEntries_eq_ok.1 h
  have hsupplied : check (s.supplied further) entries disk =
      .ok (gatherEntries (s.supplied further).chain entries .none) :=
    checkEntries_eq_ok.2 ⟨haccepted, rfl⟩
  refine ⟨_, hsupplied, fun name => ?_⟩
  rw [mem_of_check hsupplied, mem_of_check h]
  exact unresolved_supplied

/-- A run does not fail for a variable where no name is unresolved. -/
theorem apply_ne_missingRequired {s : Setting} {entries : List FileEntry}
    (h : ∀ name, ¬ Unresolved s.chain entries name) (w : World) (names : MissingNames) :
    (apply s entries w).2 ≠ .error (.fault (.missingRequired names)) := by
  have hfiles := applyEntries_ne_missingRequired s entries { world := w } names
  rw [apply]
  rcases hrun : applyEntries s entries { world := w } with ⟨p, - | halt⟩
  · have hnone : gatherEntries s.chain entries .none = .none := by
      refine MissingNames.ext_mem fun name => ?_
      rw [mem_gatherEntries]
      exact ⟨fun hname => hname.resolve_right (h name), .inl⟩
    have hmissing : p.missing = .none := by
      rw [missing_of_applyEntries hrun, hnone]
      exact ite_self _
    simp [conclude_snd, hmissing, MissingNames.isEmpty_eq_true_iff.2]
  · rw [hrun] at hfiles
    intro heq
    exact hfiles (congrArg some (Except.error.inj heq))

/-- **Supplying the names that were reported is enough.** With a further source behind those that
are there, a check reports the same names but for those that the source has a value for. If it has
one for each, the check reports nothing, and no run fails for a required variable, whatever its
flags. If it has values for reported names only, templates that mention none of these expand to the
same text. -/
theorem check_supplied {s : Setting} {entries : List FileEntry} {disk : Disk} {m : MissingNames}
    (hcheck : check s entries disk = .ok m) (further : Resolver) :
    (∃ rest, check (s.supplied further) entries disk = .ok rest ∧
      ∀ name, name ∈ rest ↔ name ∈ m ∧ further name = none) ∧
    ((∀ name ∈ m, further name ≠ none) →
      check (s.supplied further) entries disk = .ok .none ∧
      ∀ onMissing onError w names,
        (apply ((s.supplied further).withFlags onMissing onError) entries w).2 ≠
          .error (.fault (.missingRequired names))) ∧
    ((∀ name, further name ≠ none → name ∈ m) →
      ∀ template, (∀ name ∈ Template.mentioned template, name ∉ m) → ∀ enforce missing,
        (Template.expand (s.supplied further).chain enforce template missing).1 =
          (Template.expand s.chain enforce template missing).1) := by
  obtain ⟨rest, hsupplied, hrest⟩ := exists_check_supplied hcheck further
  refine ⟨⟨rest, hsupplied, hrest⟩, fun hall => ⟨?_, ?_⟩, ?_⟩
  · have hnone : rest = .none := by
      refine MissingNames.ext_mem fun name => iff_of_false ?_ (MissingNames.not_mem_none name)
      intro hname
      obtain ⟨hm, hnone⟩ := (hrest name).1 hname
      exact hall name hm hnone
    rw [hsupplied, hnone]
  · intro onMissing onError w names
    refine apply_ne_missingRequired (fun name hname => ?_) w names
    obtain ⟨hbefore, hnone⟩ := unresolved_supplied.1 hname
    exact hall name ((mem_of_check hcheck name).2 hbefore) hnone
  · intro honly template hapart enforce missing
    rw [Template.expand_fst, Template.expand_fst]
    refine Template.text_congr fun name hname => ?_
    have hnone : further name = none := by
      rcases hvalue : further name with - | value
      · rfl
      · exact absurd (honly name (by simp [hvalue])) (hapart name hname)
    rw [Setting.chain_supplied, hnone, Option.or_none]

/-- Two names are reported, and a source that has a value for one of them leaves the other. -/
theorem check_supplied_of_one :
    let s : Setting := { policy := { requireExistingFiles := false } }
    let entries : List FileEntry :=
      [⟨"a.json", [⟨⟨["k"], by simp, by simp, by simp⟩, "${X}${Y}${Z:1}"⟩]⟩]
    let further : Resolver := fun name => if name = "X" then some "1" else none
    let reported : MissingNames := (MissingNames.none.add "X").add "Y"
    check s entries {} = .ok reported ∧
      ∃ rest, check (s.supplied further) entries {} = .ok rest ∧
        ∀ name, name ∈ rest ↔ name ∈ reported ∧ further name = none := by
  intro s entries further reported
  have hjson : Format.ofFile? "a.json" = some .json := by decide
  have hgather : gatherEntries s.chain entries .none = reported := by decide +kernel
  have hcheck : check s entries {} = .ok reported := by
    refine checkEntries_eq_ok.2 ⟨?_, hgather⟩
    intro entry hentry
    obtain rfl := List.mem_singleton.1 hentry
    refine ⟨⟨_, rfl⟩, .json, ?_⟩
    simp only [formatOf, hjson]
  exact ⟨hcheck, (check_supplied hcheck further).1⟩

end ChangeSet

end ConfigGraft
