import ConfigGraft.Proofs.ChangeSet.Order
import ConfigGraft.Proofs.Program
import ConfigGraft.Proofs.Program.Setting

/-!
# The exit status of the program

Those who start the program look at its exit status and at the files. The status tells whether the
master configuration could be loaded and whether something fatal came up, and the files are those
that a run over the change set leaves. Which run this is depends on the command line: it says where
the configuration is looked for, and has a say in the policy and in the variables.

The theorems are for a journal in no file. Records go to a stream then or nowhere, so the disk that
the run starts from is the one that the program found.

## Main results

* `ChangeSet.apply_of_twins` — a run does the same wherever the journal is kept;
* `MasterConfig.load_eq_ok` — what a master configuration is loaded as;
* `Program.runCheck_snd`, `Program.runApply_snd` — how each command ends;
* `Program.run_exit_status` — **what the exit status says, and which files are left.**
-/

namespace ConfigGraft

/-! ### Runs of the same change set -/

namespace ChangeSet

variable {s : Setting} {entries : List FileEntry} {w v : World} {p q : Progress}

/-- **A run does the same to the disk and ends in the same way** in a twin of its world. -/
theorem apply_of_twins (h : w.Twins v) (hspares : s.SparesJournal entries w) :
    (apply s entries v).2 = (apply s entries w).2 ∧
      (apply s entries w).1.Twins (apply s entries v).1 := by
  have hstart : Progress.Ahead {} { world := w } { world := v } := ⟨h, rfl, rfl⟩
  obtain ⟨hsame, hahead⟩ := applyEntries_ahead s hstart hspares
  rcases hrun : applyEntries s entries { world := w } with ⟨q, - | halt⟩
  · rcases hrun' : applyEntries s entries { world := v } with ⟨q', halt?⟩
    rw [hrun, hrun'] at hsame hahead
    obtain rfl : halt? = none := hsame
    refine ⟨?_, hahead.twins.logged (logged_of_finished hrun) (logged_of_finished hrun')⟩
    rw [apply_of_finished hrun, apply_of_finished hrun', conclude_snd, conclude_snd,
      hahead.summary_eq, missing_of_applyEntries hrun, missing_of_applyEntries hrun']
  · rcases hrun' : applyEntries s entries { world := v } with ⟨q', halt?⟩
    rw [hrun, hrun'] at hsame hahead
    obtain rfl : halt? = some halt := hsame
    rw [apply_of_halted hrun, apply_of_halted hrun']
    exact ⟨rfl, hahead.twins⟩

/-- A run that gets through all entries has counted them. -/
theorem processed_of_applyEntries (h : applyEntries s entries p = (q, none)) :
    q.summary.processed = p.summary.processed + entries.length := by
  induction entries generalizing p with
  | nil =>
      cases h
      rfl
  | cons entry rest ih =>
      obtain ⟨mid, -, hstep, hrest⟩ := applyEntries_cons_finished h
      have hmid : mid.summary.processed = p.summary.processed + 1 := by
        cases hstep with
        | kept => rfl
        | written => rfl
      rw [ih hrest, hmid, List.length_cons]
      omega

/-- A run that enforces variables succeeds exactly if it gets through all entries and every variable
has a value. -/
theorem apply_eq_ok_iff (hstop : s.policy.stopOnMissingRequired = true) :
    (∃ summary, (apply s entries w).2 = .ok summary) ↔
      (∃ q, applyEntries s entries { world := w } = (q, none) ∧
        q.summary.processed = entries.length) ∧
      ∀ name, ¬ Unresolved s.chain entries name := by
  have hempty {q : Progress} (hrun : applyEntries s entries { world := w } = (q, none)) :
      q.missing.isEmpty = true ↔ ∀ name, ¬ Unresolved s.chain entries name := by
    have hmem (name : String) : name ∈ q.missing ↔ Unresolved s.chain entries name := by
      simp [(completes_of_finished hrun).mem_missing, hstop]
    rw [← Bool.not_eq_false, MissingNames.isEmpty_eq_false_iff, not_exists]
    simp only [hmem]
  constructor
  · rintro ⟨summary, hok⟩
    rcases hrun : applyEntries s entries { world := w } with ⟨q, - | halt⟩
    · refine ⟨⟨q, rfl, (processed_of_applyEntries hrun).trans (Nat.zero_add _)⟩, ?_⟩
      rw [apply_of_finished hrun, conclude_snd] at hok
      split at hok
      · rename_i hnone
        exact (hempty hrun).1 hnone
      · cases hok
    · rw [apply_of_halted hrun] at hok
      cases hok
  · rintro ⟨⟨q, hrun, -⟩, hresolved⟩
    rw [apply_of_finished hrun, conclude_snd, if_pos ((hempty hrun).2 hresolved)]
    exact ⟨q.summary, rfl⟩

/-- Checks fail for other things than variables without a value, which they gather. -/
theorem check_ne_missingRequired {disk : Disk} (names : MissingNames) :
    check s entries disk ≠ .error (.missingRequired names) := by
  intro h
  obtain ⟨_, failing, _, _, -, -, htarget | ⟨-, hformat⟩⟩ := checkEntries_eq_error h
  · cases target_eq_error htarget
  · cases formatOf_eq_error hformat

end ChangeSet

/-! ### Loading -/

/-- A master configuration is loaded as what its text is read as. -/
theorem MasterConfig.load_eq_ok {disk : Disk} {place : MasterPlace} {config : MasterConfig} :
    load disk place = .ok config ↔
      ∃ content, disk.readText place.file = .ok content ∧ parse? content = some config := by
  rw [load]
  split
  · split
    · rename_i hread
      simp [hread]
    · rename_i content hread
      cases hparse : parse? content <;> simp [hread, hparse]
  · rename_i hthere
    refine iff_of_false nofun ?_
    rintro ⟨content, hread, -⟩
    exact hthere (Disk.has_of_readText hread)

/-- The status of an end that is well or not, depending on whether something fatal came up. -/
theorem Exit.code_of_stops {ended : Exit} {stops : Prop} (hstopped : stops → ended = .stopped)
    (hdone : ¬ stops → ended = .done) :
    (ended.code = 1 ↔ stops) ∧ (ended.code = 0 ↔ ¬ stops) ∧ ended.code ≠ 2 := by
  by_cases h : stops
  · simp [hstopped h, code, h]
  · simp [hdone h, code, h]

namespace Program

open ChangeSet (Setting)

variable {arguments : List String} {environment : Variables} {line : CommandLine}
  {s : Setting} {entries : List FileEntry} {w v : World}

/-! ### Commands -/

/-- A check comes upon something fatal: a file or format that is not right where the policy stops
for that, or a variable without a value where it stops for those. -/
def CheckStops (s : Setting) (entries : List FileEntry) (disk : Disk) : Prop :=
  (∃ fault, ChangeSet.check s entries disk = .error fault ∧ s.policy.stopOnError = true) ∨
    ∃ missing name, ChangeSet.check s entries disk = .ok missing ∧ name ∈ missing ∧
      s.policy.stopOnMissingRequired = true

/-- A run over a change set fails for something fatal. -/
def ApplyStops (s : Setting) (entries : List FileEntry) (w : World) : Prop :=
  ∃ fault, (ChangeSet.apply s entries w).2 = .error (.fault fault) ∧
    fault.isFatal s.policy = true

/-- A fault stops the program if the policy counts it as fatal. -/
theorem report_snd (policy : Policy) (fault : Fault) (world : World) :
    (report policy fault world).2 = if fault.isFatal policy then .stopped else .done := by
  rw [report]
  split <;> rfl

/-- **A check stops the caller for something fatal,** and ends well otherwise. -/
theorem runCheck_snd (s : Setting) (entries : List FileEntry) (w : World) :
    (CheckStops s entries w.disk → (runCheck s entries w).2 = .stopped) ∧
    (¬ CheckStops s entries w.disk → (runCheck s entries w).2 = .done) := by
  rw [runCheck]
  rcases hcheck : ChangeSet.check s entries w.disk with fault | missing
  · have hfatal : fault.isFatal s.policy = s.policy.stopOnError := by
      cases fault with
      | missingRequired names => exact absurd hcheck (ChangeSet.check_ne_missingRequired names)
      | _ => rfl
    simp [CheckStops, hcheck, report_snd, hfatal]
  · cases hempty : missing.isEmpty with
    | true =>
        have hnone := MissingNames.isEmpty_eq_true_iff.1 hempty
        have hmem (name : String) : name ∉ missing := by
          rw [hnone]
          exact List.not_mem_nil
        simp [CheckStops, hcheck, hempty, hmem]
    | false =>
        obtain ⟨name, hname⟩ := MissingNames.isEmpty_eq_false_iff.1 hempty
        have hsome : ∃ name, name ∈ missing := ⟨name, hname⟩
        cases hstop : s.policy.stopOnMissingRequired <;>
          simp [CheckStops, hcheck, hempty, report_snd, Fault.isFatal, hsome, hstop]

/-- **Applying stops the caller for something fatal,** and ends well otherwise, unless it
crashes. -/
theorem runApply_snd (hpanic : (runApply s entries w).2 ≠ .crashed) :
    (ApplyStops s entries w → (runApply s entries w).2 = .stopped) ∧
      (¬ ApplyStops s entries w → (runApply s entries w).2 = .done) := by
  rw [runApply] at hpanic ⊢
  rcases hrun : ChangeSet.apply s entries w with ⟨u, (fault | crash) | summary⟩
  · simp [ApplyStops, hrun, report_snd]
  · rw [hrun] at hpanic
    exact absurd rfl hpanic
  · simp [ApplyStops, hrun]

/-- Without a crash of the program, applying did not crash. -/
theorem apply_ne_crash (hpanic : (runApply s entries w).2 ≠ .crashed) (crash : SealedMapping) :
    (ChangeSet.apply s entries w).2 ≠ .error (.crash crash) := by
  intro hcrash
  rw [runApply] at hpanic
  generalize ChangeSet.apply s entries w = x at hpanic hcrash
  obtain ⟨u, result⟩ := x
  obtain rfl : result = .error (.crash crash) := hcrash
  exact hpanic rfl

/-- Behind the run over the change set comes no more than reports, unless it crashes. -/
theorem logged_runApply (hpanic : (runApply s entries w).2 ≠ .crashed) :
    (ChangeSet.apply s entries w).1.Logged (runApply s entries w).1 := by
  rw [runApply] at hpanic ⊢
  rcases hrun : ChangeSet.apply s entries w with ⟨u, (fault | crash) | summary⟩
  · exact logged_report ..
  · rw [hrun] at hpanic
    exact absurd rfl hpanic
  · exact .refl u

/-! ### Before a command -/

/-- Records noted one after the other are logged. -/
theorem logged_foldl (records : List Log.Record) (w : World) :
    w.Logged (records.foldl (fun world r => world.note r) w) := by
  induction records generalizing w with
  | nil => exact .refl w
  | cons r rest ih => exact World.Logged.trans (.note r (.refl w)) (ih (w.note r))

/-- A journal in no file is opened without touching the disk. -/
theorem openJournal_of_no_file (hlog : ∀ path, Log.Destination.ofText line.log ≠ .file path)
    (environment : Variables) (w : World) :
    (openJournal line environment w).disk = w.disk ∧
      ∀ place, ¬ (openJournal line environment w).KeptAt place := by
  rw [openJournal]
  split
  · exact ⟨rfl, fun place hkept => by cases hkept⟩
  · exact ⟨rfl, fun place hkept => by cases hkept⟩
  · exact ⟨rfl, fun place hkept => by cases hkept⟩
  · rename_i path hpath
    exact absurd hpath (hlog path)

section

variable (hline : CommandLine.ofArguments arguments = .ok line)
  (hlog : ∀ path, Log.Destination.ofText line.log ≠ .file path)
include hline hlog

/-- Without a master configuration the program does no more than report. -/
theorem run_of_load_error {fault : MasterFault}
    (hload : MasterConfig.load w.disk
      (MasterPlace.discover environment line.base? line.configFile?) = .error fault) :
    (run arguments environment w).2 = .noConfiguration ∧
      (run arguments environment w).1.disk = w.disk := by
  obtain ⟨hdisk, hquiet⟩ := openJournal_of_no_file hlog environment w
  simp only [run, hline, runLine, hdisk, hload]
  exact ⟨trivial, (World.disk_note _ hquiet).trans hdisk⟩

/-- With a master configuration its change set is applied or checked, on the disk that the program
found. -/
theorem exists_run_of_load_ok {loaded : MasterConfig}
    (hload : MasterConfig.load w.disk
      (MasterPlace.discover environment line.base? line.configFile?) = .ok loaded) :
    ∃ u : World, u.disk = w.disk ∧ (∀ place, ¬ u.KeptAt place) ∧
      run arguments environment w =
        match line.command with
        | .apply => runApply (settingOf line environment loaded w.disk) loaded.replacements u
        | .check => runCheck (settingOf line environment loaded w.disk) loaded.replacements u := by
  obtain ⟨hdisk, hquiet⟩ := openJournal_of_no_file hlog environment w
  simp only [run, hline, runLine, hdisk, hload, runLoaded, MasterConfig.chain]
  generalize openJournal line environment w = opened at hdisk hquiet
  generalize MasterConfig.loadedRecord _ loaded = r
  have hnoted : opened.Logged (opened.note r) := .note r (.refl opened)
  rw [hnoted.disk_eq hquiet, hdisk]
  have hlogged (records : List Log.Record) :
      opened.Logged (records.foldl (fun world r => world.note r) (opened.note r)) :=
    .trans hnoted (logged_foldl records _)
  refine ⟨_, ((hlogged _).disk_eq hquiet).trans hdisk, fun place hkept => ?_, rfl⟩
  exact hquiet place ((hlogged _).sink_eq.symm.trans hkept)

end

/-- Where the policy stops for everything, a run that does not crash stops the caller exactly if it
does not succeed. -/
theorem not_applyStops_iff (hstop : s.policy.stopOnMissingRequired = true)
    (herror : s.policy.stopOnError = true)
    (hpanic : ∀ crash, (ChangeSet.apply s entries w).2 ≠ .error (.crash crash)) :
    ¬ ApplyStops s entries w ↔ ∃ summary, (ChangeSet.apply s entries w).2 = .ok summary := by
  have hfatal (fault : Fault) : fault.isFatal s.policy = true := by
    cases fault with
    | missingRequired names => exact hstop
    | _ => exact herror
  rcases hrun : (ChangeSet.apply s entries w).2 with (fault | crash) | summary
  · simp [ApplyStops, hrun, hfatal]
  · exact absurd hrun (hpanic crash)
  · simp [ApplyStops, hrun]

/-- **What applying leaves and how it ends** is told by the run over the change set from any world
with the same disk, as long as no journal is kept on the disk. -/
theorem runApply_exit (hpanic : (runApply s entries w).2 ≠ .crashed) (hdisk : v.disk = w.disk)
    (hquiet : ∀ place, ¬ w.KeptAt place) (hquiet' : ∀ place, ¬ v.KeptAt place) :
    (runApply s entries w).1.disk = (ChangeSet.apply s entries v).1.disk ∧
    ((runApply s entries w).2.code = 1 ↔ ApplyStops s entries v) ∧
    ((runApply s entries w).2.code = 0 ↔ ¬ ApplyStops s entries v) ∧
    (s.policy.stopOnMissingRequired = true → s.policy.stopOnError = true →
      ((runApply s entries w).2.code = 0 ↔
        (∃ q, ChangeSet.applyEntries s entries { world := v } = (q, none) ∧
          q.summary.processed = entries.length) ∧
        ∀ name, ¬ ChangeSet.Unresolved s.chain entries name)) := by
  obtain ⟨hstopped, hdone⟩ := runApply_snd hpanic
  obtain ⟨hone, hzero, -⟩ := Exit.code_of_stops hstopped hdone
  have htwins : w.Twins v := World.twins_of_disk_eq hdisk hquiet hquiet'
  obtain ⟨hsame, hagree⟩ :=
    ChangeSet.apply_of_twins htwins (Setting.sparesJournal_of_no_file hquiet s entries)
  have hstops : ApplyStops s entries v ↔ ApplyStops s entries w := by
    rw [ApplyStops, ApplyStops, hsame]
  have hend (place : Location) : ¬ (ChangeSet.apply s entries w).1.KeptAt place :=
    fun hkept => hquiet place ((ChangeSet.sink_apply ..).symm.trans hkept)
  refine ⟨?_, hone.trans hstops.symm, hzero.trans (not_congr hstops.symm), ?_⟩
  · exact ((logged_runApply hpanic).disk_eq hend).trans (hagree.agree.eq_of_none hend).symm
  · intro hmissing herror
    rw [hzero, not_applyStops_iff hmissing herror (apply_ne_crash hpanic), ← hsame,
      ChangeSet.apply_eq_ok_iff hmissing]

/-! ### The program -/

/-- **What the exit status says, and which files are left.** The journal is in no file, and the
program does not crash.

* The status is 2 if there is no master configuration that can be read, and only then. No file has
  changed in that case.
* A check changes no file. Its status is 1 if it comes upon something fatal, and 0 otherwise.
* Applying leaves the disk that the run over the change set leaves, wherever that run keeps its
  journal. The status is 1 if the run fails for something fatal, and 0 otherwise.
* So where the policy stops for everything, status 0 says that all entries were gone through and
  that every required variable had a value.

The configuration is looked for in the file that the arguments name, or else the environment, or
else in the usual one. The setting of the run is what `SettingFor` says. -/
theorem run_exit_status (hline : CommandLine.ofArguments arguments = .ok line)
    (hlog : ∀ path, Log.Destination.ofText line.log ≠ .file path)
    (hpanic : (run arguments environment w).2 ≠ .crashed) :
    let place := MasterPlace.discover environment line.base? line.configFile?
    let after := run arguments environment w
    FirstNamed line.configFile? (environment.value? MasterPlace.fileVariable)
      (FileName.join place.base MasterPlace.usualFile) place.file ∧
    (after.2.code = 2 ↔ ∀ content, w.disk.readText place.file = .ok content →
      MasterConfig.parse? content = none) ∧
    (after.2.code = 2 → after.1.disk = w.disk) ∧
    (line.command = .check → after.1.disk = w.disk) ∧
    ∀ content loaded, w.disk.readText place.file = .ok content →
      MasterConfig.parse? content = some loaded →
      let s := settingOf line environment loaded w.disk
      let entries := loaded.replacements
      SettingFor line environment loaded w.disk s ∧
      (line.command = .check →
        (after.2.code = 1 ↔ CheckStops s entries w.disk) ∧
        (after.2.code = 0 ↔ ¬ CheckStops s entries w.disk)) ∧
      (line.command = .apply → ∀ v : World, v.disk = w.disk → (∀ place, ¬ v.KeptAt place) →
        after.1.disk = (ChangeSet.apply s entries v).1.disk ∧
        (after.2.code = 1 ↔ ApplyStops s entries v) ∧
        (after.2.code = 0 ↔ ¬ ApplyStops s entries v) ∧
        (s.policy.stopOnMissingRequired = true → s.policy.stopOnError = true →
          (after.2.code = 0 ↔
            (∃ q, ChangeSet.applyEntries s entries { world := v } = (q, none) ∧
              q.summary.processed = entries.length) ∧
            ∀ name, ¬ ChangeSet.Unresolved s.chain entries name))) := by
  intro place after
  refine ⟨MasterPlace.file_discover environment line.base? line.configFile?, ?_⟩
  rcases hload : MasterConfig.load w.disk place with fault | loaded
  · have hunread (content : String) (hread : w.disk.readText place.file = .ok content) :
        MasterConfig.parse? content = none := by
      cases hparse : MasterConfig.parse? content with
      | none => rfl
      | some config =>
          rw [MasterConfig.load_eq_ok.2 ⟨content, hread, hparse⟩] at hload
          cases hload
    obtain ⟨hended, hdisk⟩ := run_of_load_error hline hlog hload
    refine ⟨iff_of_true (congrArg Exit.code hended) hunread, fun _ => hdisk, fun _ => hdisk, ?_⟩
    intro content loaded hread hparse
    rw [hunread content hread] at hparse
    cases hparse
  obtain ⟨content, hread, hparse⟩ := MasterConfig.load_eq_ok.1 hload
  have hsome : ¬ ∀ content, w.disk.readText place.file = .ok content →
      MasterConfig.parse? content = none := by
    intro hnone
    rw [hnone content hread] at hparse
    cases hparse
  have hunique {content' : String} {loaded' : MasterConfig}
      (hread' : w.disk.readText place.file = .ok content')
      (hparse' : MasterConfig.parse? content' = some loaded') : loaded' = loaded := by
    have hload' := MasterConfig.load_eq_ok.2 ⟨content', hread', hparse'⟩
    exact Except.ok.inj (hload'.symm.trans hload)
  obtain ⟨u, hdisk, hquiet, hrun⟩ := exists_run_of_load_ok hline hlog hload
  cases hcommand : line.command with
  | check =>
      simp only [hcommand] at hrun
      have hkept : after.1.disk = w.disk := by
        rw [show after = _ from hrun]
        exact ((logged_runCheck ..).disk_eq hquiet).trans hdisk
      obtain ⟨hstopped, hdone⟩ := runCheck_snd (settingOf line environment loaded w.disk)
        loaded.replacements u
      rw [← hrun, hdisk] at hstopped hdone
      obtain ⟨hone, hzero, htwo⟩ := Exit.code_of_stops hstopped hdone
      refine ⟨iff_of_false htwo hsome, fun _ => hkept, fun _ => hkept, ?_⟩
      intro content' loaded' hread' hparse'
      obtain rfl := hunique hread' hparse'
      exact ⟨settingFor_settingOf .., fun _ => ⟨hone, hzero⟩, nofun⟩
  | apply =>
      simp only [hcommand] at hrun
      have hpanic' := hpanic
      rw [hrun] at hpanic'
      obtain ⟨hstopped, hdone⟩ := runApply_snd hpanic'
      obtain ⟨-, -, htwo⟩ := Exit.code_of_stops hstopped hdone
      rw [← hrun] at htwo
      refine ⟨iff_of_false htwo hsome, fun h => absurd h htwo, nofun, ?_⟩
      intro content' loaded' hread' hparse'
      obtain rfl := hunique hread' hparse'
      refine ⟨settingFor_settingOf .., nofun, fun _ v hv hquiet' => ?_⟩
      rw [show after = _ from hrun]
      exact runApply_exit hpanic' (hv.trans hdisk.symm) hquiet hquiet'

/-! ### An instance -/

/-- A disk with a master configuration about a file that is not there. -/
def strictWorld : World where
  disk := { nodes := [(["m.yml"], .file "replacements:\n- file: a.json\n".toUTF8)] }

/-- Arguments that name the master configuration and ask to stop on errors. -/
def strictArguments : List String := ["-c", "m.yml", "--stop-on-error"]

/-- An environment in which files are named from the working directory. -/
def strictEnvironment : Variables := ⟨[(MasterPlace.baseVariable, "")]⟩

def strictLine : CommandLine := { configFile? := some "m.yml", stopOnError := true }

def strictConfig : MasterConfig := { replacements := [⟨"a.json", []⟩] }

/-- The setting that all this leads to. -/
def strictSetting : Setting :=
  settingOf strictLine strictEnvironment strictConfig strictWorld.disk

/-- The arguments of the sample are read as its command line. -/
theorem ofArguments_strictArguments :
    CommandLine.ofArguments strictArguments = .ok strictLine := rfl

/-- The configuration of the sample is there. -/
theorem readText_strictWorld :
    strictWorld.disk.readText "m.yml" = .ok "replacements:\n- file: a.json\n" := by
  have hplace : strictWorld.disk.locate "m.yml" = .ok ["m.yml"] :=
    Disk.locate_part rfl (by decide : FileName.IsPart "m.yml")
  have hfind : strictWorld.disk.find "m.yml" =
      .ok (["m.yml"], .file "replacements:\n- file: a.json\n".toUTF8) :=
    Disk.find_eq_ok.2 ⟨hplace, rfl⟩
  simp only [Disk.readText, Disk.readBytes, hfind, Document.fromUTF8?_toUTF8]

/-- It is read as the configuration with one entry. -/
theorem parse?_strictConfig :
    MasterConfig.parse? "replacements:\n- file: a.json\n" = some strictConfig := by
  decide +kernel

/-- The file is not there, so the run over the change set fails at once. -/
theorem apply_strictSetting {u : World} (h : u.disk = strictWorld.disk) :
    ChangeSet.apply strictSetting strictConfig.replacements u =
      (u, .error (.fault (.fileNotFound "a.json"))) := by
  have hpath : strictSetting.pathOf ⟨"a.json", []⟩ = "a.json" := by decide +kernel
  have hrequire : strictSetting.policy.requireExistingFiles = true := rfl
  have hthere : strictWorld.disk.has "a.json" = false :=
    Disk.has_part_eq_false rfl (by decide : FileName.IsPart "a.json") rfl
  simp [strictConfig, ChangeSet.apply, ChangeSet.applyEntries, ChangeSet.applyEntry,
    ChangeSet.target, hpath, h, hthere, hrequire]

/-- The file is not there and the program is to stop on errors, so the status is 1. -/
theorem run_exit_status_strictWorld :
    (run strictArguments strictEnvironment strictWorld).2.code = 1 ∧
      (run strictArguments strictEnvironment strictWorld).1.disk = strictWorld.disk := by
  have hlog (path : String) : Log.Destination.ofText strictLine.log ≠ .file path := by
    simp [Log.Destination.ofText, strictLine]
  have hload : MasterConfig.load strictWorld.disk
      (MasterPlace.discover strictEnvironment strictLine.base? strictLine.configFile?) =
        .ok strictConfig :=
    MasterConfig.load_eq_ok.2 ⟨_, readText_strictWorld, parse?_strictConfig⟩
  obtain ⟨u, hdisk, -, hrun⟩ := exists_run_of_load_ok ofArguments_strictArguments hlog hload
  have hended : (run strictArguments strictEnvironment strictWorld).2 = .stopped := by
    have happly : run strictArguments strictEnvironment strictWorld =
        runApply strictSetting strictConfig.replacements u := hrun
    rw [happly, runApply, apply_strictSetting hdisk]
    exact (report_snd ..).trans (if_pos rfl)
  have hpanic : (run strictArguments strictEnvironment strictWorld).2 ≠ .crashed := by
    rw [hended]
    decide
  obtain ⟨-, -, -, -, hloaded⟩ := run_exit_status ofArguments_strictArguments hlog hpanic
  obtain ⟨-, -, happly⟩ := hloaded _ _ readText_strictWorld parse?_strictConfig
  obtain ⟨hafter, hone, -⟩ := happly rfl strictWorld rfl fun place hkept => by cases hkept
  have hfails := apply_strictSetting (u := strictWorld) rfl
  exact ⟨hone.2 ⟨_, congrArg Prod.snd hfails, rfl⟩, hafter.trans (congrArg (·.1.disk) hfails)⟩

end Program

end ConfigGraft
