import ConfigGraft.Proofs.ChangeSet.Flags
import ConfigGraft.Proofs.ChangeSet.Foreseen

/-!
# What a check foretells

A check looks at the disk as it is before the run, and gathers names where the run would expand
templates. A run has foreseen worlds ahead of it, so what the check found at the start is what the
run finds when it comes to an entry.

## Main results

* `applyEntries_of_check` — entries that check are gone through, and the same names are gathered;
* `check_withFlags` — a check does not depend on the stop flags;
* `apply_of_check_ok`, `apply_of_check_error`, `check_foretells_apply` — **how a run ends, by what
  the check has found.**
-/

namespace ConfigGraft.ChangeSet

variable {s : Setting} {disk : Disk}

/-! ### Checks -/

/-- A check of an entry and those behind it. -/
theorem checkEntries_cons_eq_ok {entry : FileEntry} {rest : List FileEntry}
    {missing m : MissingNames} (h : checkEntries s disk (entry :: rest) missing = .ok m) :
    (∃ path, target s disk entry = .ok path) ∧ (∃ format, formatOf entry = .ok format) ∧
      checkEntries s disk rest (gatherMissing s.chain entry.changes missing) = .ok m := by
  rw [checkEntries] at h
  split at h
  · cases h
  · cases h
  · rename_i path format htarget hformat
    exact ⟨⟨path, htarget⟩, ⟨format, hformat⟩, h⟩

/-- A check that fails has gone through some entries and fails at the next one. -/
theorem checkEntries_eq_error {entries : List FileEntry} {missing : MissingNames} {e : Fault}
    (h : checkEntries s disk entries missing = .error e) :
    ∃ front failing back m, entries = front ++ failing :: back ∧
      checkEntries s disk front missing = .ok m ∧
      (target s disk failing = .error e ∨
        (∃ path, target s disk failing = .ok path) ∧ formatOf failing = .error e) := by
  induction entries generalizing missing with
  | nil => cases h
  | cons entry rest ih =>
      rcases htarget : target s disk entry with fault | path
      · simp only [checkEntries, htarget] at h
        cases h
        exact ⟨[], entry, rest, missing, rfl, rfl, .inl htarget⟩
      rcases hformat : formatOf entry with fault | format
      · simp only [checkEntries, htarget, hformat] at h
        cases h
        exact ⟨[], entry, rest, missing, rfl, rfl, .inr ⟨⟨path, htarget⟩, hformat⟩⟩
      simp only [checkEntries, htarget, hformat] at h
      obtain ⟨front, failing, back, m, rfl, hfront, hfailing⟩ := ih h
      refine ⟨entry :: front, failing, back, m, rfl, ?_, hfailing⟩
      simp only [checkEntries, htarget, hformat, hfront]

/-- **A check does not depend on the stop flags.** -/
theorem check_withFlags (s : Setting) (onMissing onError : Bool) (entries : List FileEntry)
    (disk : Disk) : check (s.withFlags onMissing onError) entries disk = check s entries disk := by
  suffices h : ∀ missing, checkEntries (s.withFlags onMissing onError) disk entries missing =
      checkEntries s disk entries missing from h .none
  induction entries with
  | nil => exact fun _ => rfl
  | cons entry rest ih =>
      intro missing
      rw [checkEntries, checkEntries,
        show target (s.withFlags onMissing onError) = target s from rfl]
      split
      · rfl
      · rfl
      · exact ih _

/-! ### Runs -/

/-- Entries that check are gone through, and the same names are gathered, unless the run halts for
something that a check does not look at. -/
theorem applyEntries_of_check (hstop : s.policy.stopOnMissingRequired = true)
    {entries : List FileEntry} {p q : Progress} {halt? : Option Halt} {m : MissingNames}
    (hforeseen : Foreseen s disk p.world)
    (hcheck : checkEntries s disk entries p.missing = .ok m)
    (hrun : applyEntries s entries p = (q, halt?)) :
    (halt? = none ∧ q.missing = m) ∨
      (∃ fault, halt? = some (.fault fault) ∧ fault.OnAccess) ∨
      ∃ crash, halt? = some (.crash crash) := by
  induction entries generalizing p with
  | nil =>
      cases hrun
      cases hcheck
      exact .inl ⟨rfl, rfl⟩
  | cons entry rest ih =>
      obtain ⟨⟨path, htarget⟩, ⟨format, hformat⟩, hrest⟩ := checkEntries_cons_eq_ok hcheck
      have hstep := applyEntry_step s entry p
      rw [applyEntries] at hrun
      rcases happly : applyEntry s entry p with ⟨p', - | halt⟩
      · rw [happly] at hrun hstep
        have hgathered : p'.missing = gatherMissing s.chain entry.changes p.missing := by
          rw [hstep.missing_eq, Setting.gather, if_pos hstop]
        exact ih (hstep.foreseen hforeseen) (hgathered ▸ hrest) hrun
      · rw [happly] at hrun hstep
        cases hrun
        rcases hstep.halt_cases with ⟨fault, rfl, h⟩ | ⟨fault, rfl, -, h⟩ | ⟨fault, rfl, h, -⟩ |
          ⟨crash, rfl⟩
        · rw [hforeseen.target_eq, htarget] at h
          cases h
        · rw [hformat] at h
          cases h
        · exact .inr (.inl ⟨fault, rfl, h⟩)
        · exact .inr (.inr ⟨crash, rfl⟩)

/-- A run over entries goes on with the next ones where it has not halted. -/
theorem applyEntries_append (front back : List FileEntry) (p : Progress) :
    applyEntries s (front ++ back) p =
      match applyEntries s front p with
      | (q, some halt) => (q, some halt)
      | (q, none) => applyEntries s back q := by
  induction front generalizing p with
  | nil => rfl
  | cons entry front ih =>
      rw [List.cons_append, applyEntries, applyEntries]
      rcases applyEntry s entry p with ⟨p', - | halt⟩
      · exact ih p'
      · rfl

/-- How a run ends where the check has gone through all entries. -/
theorem apply_of_check_ok {entries : List FileEntry} {w : World} {m : MissingNames}
    (hstop : s.policy.stopOnMissingRequired = true) (hopen : w.Opened)
    (hcheck : check s entries w.disk = .ok m) :
    (m = .none ∧ ∃ summary, (apply s entries w).2 = .ok summary) ∨
      (m ≠ .none ∧ (apply s entries w).2 = .error (.fault (.missingRequired m))) ∨
      (∃ fault, fault.OnAccess ∧ (apply s entries w).2 = .error (.fault fault)) ∨
      ∃ crash, (apply s entries w).2 = .error (.crash crash) := by
  have hforeseen : Foreseen s w.disk ({ world := w } : Progress).world := .start hopen
  rcases hrun : applyEntries s entries { world := w } with ⟨q, halt?⟩
  rcases applyEntries_of_check hstop hforeseen hcheck hrun with ⟨rfl, rfl⟩ |
    ⟨fault, rfl, hfault⟩ | ⟨crash, rfl⟩
  · rw [apply, hrun]
    simp only [conclude_snd]
    split
    · rename_i hempty
      exact .inl ⟨MissingNames.isEmpty_eq_true_iff.1 hempty, _, rfl⟩
    · rename_i hsome
      exact .inr (.inl ⟨fun hnone => hsome (MissingNames.isEmpty_eq_true_iff.2 hnone), rfl⟩)
  · exact .inr (.inr (.inl ⟨fault, hfault, by rw [apply, hrun]⟩))
  · exact .inr (.inr (.inr ⟨crash, by rw [apply, hrun]⟩))

/-- How a run ends where the check has failed: at the same entry in the same way, unless it halts at
an entry before. -/
theorem apply_of_check_error {entries : List FileEntry} {w : World} {e : Fault}
    (hstop : s.policy.stopOnMissingRequired = true) (hopen : w.Opened)
    (hcheck : check s entries w.disk = .error e) :
    ∃ front failing back, entries = front ++ failing :: back ∧
      (e = .fileNotFound (s.pathOf failing) ∨ e = .unsupported failing.file) ∧
      (∃ m, check s front w.disk = .ok m) ∧
      ((apply s entries w).2 = .error (.fault e) ∨
        (∃ fault, fault.OnAccess ∧ (apply s entries w).2 = .error (.fault fault) ∧
          (apply s front w).2 = .error (.fault fault)) ∨
        ∃ crash, (apply s entries w).2 = .error (.crash crash)) := by
  have hforeseen : Foreseen s w.disk ({ world := w } : Progress).world := .start hopen
  obtain ⟨front, failing, back, m, rfl, hfront, hfailing⟩ := checkEntries_eq_error hcheck
  rcases hrun : applyEntries s front { world := w } with ⟨q, halt?⟩
  have hwhole := applyEntries_append (s := s) front (failing :: back) { world := w }
  rw [hrun] at hwhole
  refine ⟨front, failing, back, rfl, ?_, ⟨m, hfront⟩, ?_⟩
  · exact hfailing.imp target_eq_error fun h => formatOf_eq_error h.2
  rcases applyEntries_of_check hstop hforeseen hfront hrun with ⟨rfl, -⟩ |
    ⟨fault, rfl, hfault⟩ | ⟨crash, rfl⟩
  · -- The run has come to the entry that the check fails at, and finds what the check found.
    have hq : Foreseen s w.disk q.world := by
      have hq := hforeseen.applyEntries front
      rwa [hrun] at hq
    refine .inl ?_
    rw [apply, hwhole]
    rcases hfailing with htarget | ⟨⟨path, htarget⟩, hformat⟩
    · simp only [applyEntries, applyEntry, hq.target_eq, htarget]
    · simp only [applyEntries, applyEntry, hq.target_eq, htarget, hformat]
  · exact .inr (.inl ⟨fault, hfault, by rw [apply, hwhole], by rw [apply, hrun]⟩)
  · exact .inr (.inr ⟨crash, by rw [apply, hwhole]⟩)

/-- **How a run ends, by what the check has found.** Where the check names the missing variables of
the change set, a run that is through with all files succeeds if there are none, and fails for these
names if there are some. Where the check fails at an entry, the run fails in the same way, unless it
halted at an entry before. What a check does not look at are the documents: a run can halt on
access to them or at a mapping that is closed to changes. -/
theorem check_foretells_apply {s : Setting} {entries : List FileEntry} {w : World}
    (hstop : s.policy.stopOnMissingRequired = true) (hopen : w.Opened) :
    (∀ m, check s entries w.disk = .ok m →
      (m = .none ∧ ∃ summary, (apply s entries w).2 = .ok summary) ∨
      (m ≠ .none ∧ (apply s entries w).2 = .error (.fault (.missingRequired m))) ∨
      (∃ fault, fault.OnAccess ∧ (apply s entries w).2 = .error (.fault fault)) ∨
      ∃ crash, (apply s entries w).2 = .error (.crash crash)) ∧
    (∀ e, check s entries w.disk = .error e →
      ∃ front failing back, entries = front ++ failing :: back ∧
        (e = .fileNotFound (s.pathOf failing) ∨ e = .unsupported failing.file) ∧
        (∃ m, check s front w.disk = .ok m) ∧
        ((apply s entries w).2 = .error (.fault e) ∨
          (∃ fault, fault.OnAccess ∧ (apply s entries w).2 = .error (.fault fault) ∧
            (apply s front w).2 = .error (.fault fault)) ∨
          ∃ crash, (apply s entries w).2 = .error (.crash crash))) ∧
    ∀ onMissing onError,
      check (s.withFlags onMissing onError) entries w.disk = check s entries w.disk :=
  ⟨fun _ => apply_of_check_ok hstop hopen, fun _ => apply_of_check_error hstop hopen,
    fun _ _ => check_withFlags ..⟩

/-- A run that need not find its files fails at the first one without a format, as checked. -/
theorem check_foretells_apply_of_unsupported :
    let s : Setting := { policy := { requireExistingFiles := false } }
    let entries : List FileEntry := [⟨"a.json", []⟩, ⟨"b.ini", []⟩]
    check s entries {} = .error (.unsupported "b.ini") ∧
      ∃ front failing back, entries = front ++ failing :: back ∧
        (Fault.unsupported "b.ini" = .fileNotFound (s.pathOf failing) ∨
          Fault.unsupported "b.ini" = .unsupported failing.file) ∧
        (∃ m, check s front {} = .ok m) ∧
        ((apply s entries {}).2 = .error (.fault (.unsupported "b.ini")) ∨
          (∃ fault, fault.OnAccess ∧ (apply s entries {}).2 = .error (.fault fault) ∧
            (apply s front {}).2 = .error (.fault fault)) ∨
          ∃ crash, (apply s entries {}).2 = .error (.crash crash)) := by
  intro s entries
  have hjson : Format.ofFile? "a.json" = some .json := by decide
  have hini : Format.ofFile? "b.ini" = none := by decide
  have hcheck : check s entries {} = .error (.unsupported "b.ini") := by
    simp only [s, entries, check, checkEntries, target, Bool.false_and, formatOf, hjson, hini]
    rfl
  have hoff : ({} : World).Opened := fun place h => by cases h
  exact ⟨hcheck, (check_foretells_apply rfl hoff).2.1 _ hcheck⟩

end ConfigGraft.ChangeSet
