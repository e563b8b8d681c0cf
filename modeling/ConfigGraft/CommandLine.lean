import ConfigGraft.Master

/-!
# Command lines

What a caller asks the program for: a command, the places of its files, and switches that make the
policy of the master configuration stricter or milder.
-/

namespace ConfigGraft

/-- What to do with the change set. -/
inductive Command where
  | apply
  | check
  deriving DecidableEq, Repr

/-- A command, and what was said along with it. -/
structure CommandLine where
  command : Command := .apply
  configFile? : Option String := none
  base? : Option String := none
  envFile? : Option String := none
  /-- Where records go, as text. -/
  log : String := "2"
  noStopOnMissingRequired : Bool := false
  stopOnError : Bool := false
  createMissing : Bool := false
  verbose : Bool := false
  deriving DecidableEq, Repr

namespace CommandLine

/-- A policy under the switches. No switch undoes what another one does. -/
def adjustPolicy (line : CommandLine) (policy : Policy) : Policy where
  stopOnMissingRequired := policy.stopOnMissingRequired && !line.noStopOnMissingRequired
  stopOnError := policy.stopOnError || line.stopOnError
  requireExistingFiles := policy.requireExistingFiles && !line.createMissing

/-- A master configuration with what the command line says in place of its own settings. -/
def adjust (line : CommandLine) (config : MasterConfig) : MasterConfig :=
  { config with
    policy := line.adjustPolicy config.policy
    envFile := line.envFile?.getD config.envFile }

end CommandLine

end ConfigGraft
