import ConfigGraft.Program
import ConfigGraft.Proofs.ChangeSet.Supplied

/-!
# The setting of a run

What a run over a change set does depends on three things besides the files: the directory that
files are named from, the variables, and the policy. The program takes them from its arguments, the
environment, the master configuration and the variable file. Arguments count before the environment,
and the environment counts before what is in a file. A switch makes the policy of the configuration
stricter or milder, and has no effect where the policy is that strict or mild already.

## Main results

* `MasterPlace.base_discover`, `MasterPlace.file_discover` — where the configuration is looked for;
* `VariableFile.load_fst` — the variables of a file are those that its text is read as;
* `CommandLine.adjustPolicy_iff` — the policy under the switches;
* `Program.settingFor_settingOf` — **what the setting of a run is made of.**
-/

namespace ConfigGraft

/-! ### Places -/

/-- A value **is the first named** of two, or the usual one where neither is named. -/
inductive FirstNamed (first? second? : Option String) (usual : String) : String → Prop
  | first {value : String} : first? = some value → FirstNamed first? second? usual value
  | second {value : String} :
      first? = none → second? = some value → FirstNamed first? second? usual value
  | usual : first? = none → second? = none → FirstNamed first? second? usual usual

/-- The value that is found by asking one after the other is the first named. -/
theorem firstNamed_getD (first? second? : Option String) (usual : String) :
    FirstNamed first? second? usual ((first?.or second?).getD usual) := by
  cases first? with
  | some value => exact .first rfl
  | none =>
      cases second? with
      | some value => exact .second rfl rfl
      | none => exact .usual rfl rfl

namespace MasterPlace

variable (environment : Variables) (base? file? : Option String)

/-- **The base directory** is the one that the caller names, or that the environment names, or the
working directory. -/
theorem base_discover :
    FirstNamed base? (environment.value? baseVariable) usualBase
      (discover environment base? file?).base :=
  firstNamed_getD ..

/-- **The file of the configuration** is the one that the caller names, or that the environment
names, or the usual one in the base directory. -/
theorem file_discover :
    FirstNamed file? (environment.value? fileVariable)
      (FileName.join (discover environment base? file?).base usualFile)
      (discover environment base? file?).file :=
  firstNamed_getD ..

end MasterPlace

/-! ### Variables -/

/-- What can be read is there. -/
theorem Disk.has_of_readText {disk : Disk} {name content : String}
    (h : disk.readText name = .ok content) : disk.has name = true := by
  rw [Disk.readText, Disk.readBytes] at h
  rw [Disk.has]
  cases hfind : disk.find name with
  | ok found => rfl
  | error cause =>
      rw [hfind] at h
      cases h

/-- **The variables of a file are those that its text is read as.** There are none if the file is
not there, or cannot be read. -/
theorem VariableFile.load_fst (disk : Disk) (path : String) :
    (load disk path).1 =
      match disk.readText path with
      | .ok content => parse content
      | .error _ => {} := by
  rw [load]
  cases hread : disk.readText path with
  | ok content => rw [if_pos (Disk.has_of_readText hread)]
  | error cause => split <;> rfl

/-! ### The policy -/

/-- **The policy under the switches.** Each switch acts on one flag, in one direction. -/
theorem CommandLine.adjustPolicy_iff (line : CommandLine) (policy : Policy) :
    ((line.adjustPolicy policy).stopOnMissingRequired = true ↔
      policy.stopOnMissingRequired = true ∧ line.noStopOnMissingRequired = false) ∧
    ((line.adjustPolicy policy).stopOnError = true ↔
      policy.stopOnError = true ∨ line.stopOnError = true) ∧
    ((line.adjustPolicy policy).requireExistingFiles = true ↔
      policy.requireExistingFiles = true ∧ line.createMissing = false) := by
  simp [adjustPolicy]

/-! ### The setting -/

namespace Program

open ChangeSet (Setting)

/-- The setting that a command line and a master configuration lead to: the variables are those of
the environment and, behind them, those of the variable file. What it is made of is said by
`settingFor_settingOf`. -/
def settingOf (line : CommandLine) (environment : Variables) (loaded : MasterConfig)
    (disk : Disk) : Setting :=
  let base := (MasterPlace.discover environment line.base? line.configFile?).base
  let file := FileName.join base (line.envFile?.getD loaded.envFile)
  { base, chain := Chain.mk [environment, (VariableFile.load disk file).1],
    policy := line.adjustPolicy loaded.policy }

/-- What the arguments, the environment, the master configuration and the disk have to do with **the
setting of a run.** The variable file is the one that the caller names, or else the one that the
configuration names, as seen from the base directory. -/
structure SettingFor (line : CommandLine) (environment : Variables) (loaded : MasterConfig)
    (disk : Disk) (s : Setting) : Prop where
  base : FirstNamed line.base? (environment.value? MasterPlace.baseVariable) MasterPlace.usualBase
    s.base
  stopOnMissingRequired : s.policy.stopOnMissingRequired = true ↔
    loaded.policy.stopOnMissingRequired = true ∧ line.noStopOnMissingRequired = false
  stopOnError : s.policy.stopOnError = true ↔
    loaded.policy.stopOnError = true ∨ line.stopOnError = true
  requireExistingFiles : s.policy.requireExistingFiles = true ↔
    loaded.policy.requireExistingFiles = true ∧ line.createMissing = false
  /-- A name has the value that it has in the environment. -/
  inEnvironment : ∀ name value : String, environment.value? name = some value →
    s.chain name = some value
  /-- Where it has none there, the variable file decides, if it can be read. -/
  inFile : ∀ name content : String, environment.value? name = none →
    disk.readText (FileName.join s.base (line.envFile?.getD loaded.envFile)) = .ok content →
    s.chain name = (VariableFile.parse content).value? name
  /-- Where it cannot be read, the name has no value. -/
  inNone : ∀ (name : String) (cause : DiskFault), environment.value? name = none →
    disk.readText (FileName.join s.base (line.envFile?.getD loaded.envFile)) = .error cause →
    s.chain name = none

/-- **What the setting of a run is made of.** -/
theorem settingFor_settingOf (line : CommandLine) (environment : Variables)
    (loaded : MasterConfig) (disk : Disk) :
    SettingFor line environment loaded disk (settingOf line environment loaded disk) := by
  obtain ⟨hmissing, herror, hrequire⟩ := line.adjustPolicy_iff loaded.policy
  have hchain (name : String) : (settingOf line environment loaded disk).chain name =
      (environment.value? name).or ((VariableFile.load disk (FileName.join
        (settingOf line environment loaded disk).base
        (line.envFile?.getD loaded.envFile))).1.value? name) :=
    Resolver.ofSources_pair ..
  have hbase := MasterPlace.base_discover environment line.base? line.configFile?
  refine ⟨hbase, hmissing, herror, hrequire, ?_, ?_, ?_⟩
  · intro name value hvalue
    rw [hchain, hvalue, Option.some_or]
  · intro name content hnone hread
    rw [hchain, hnone, Option.none_or, VariableFile.load_fst, hread]
  · intro name cause hnone hread
    rw [hchain, hnone, Option.none_or, VariableFile.load_fst, hread]
    rfl

end Program

end ConfigGraft
