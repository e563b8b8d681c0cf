import ConfigGraft.ChangeSet.Check
import ConfigGraft.CommandLine.Usage
import ConfigGraft.Master.Loading

/-!
# The program

A run of the program as a function: from arguments, an environment and a world to the world
afterwards and the exit status. It opens the journal, loads the master configuration, and applies
or checks the change set in it. A fault is reported, and the policy decides whether it is fatal.
-/

namespace ConfigGraft

/-- How a run of the program ended. -/
inductive Exit where
  | done
  | stopped
  | noConfiguration
  | misused
  | crashed
  deriving DecidableEq, Repr

/-- The exit status. -/
def Exit.code : Exit → Nat
  | .done => 0
  | .stopped => 1
  | .noConfiguration => 2
  | .misused => 2
  | .crashed => 101

namespace Program

/-! ### The journal -/

/-- The variable that sets the filter of the journal. -/
def filterVariable : String := "RUST_LOG"

/-- The filter of a run: that of the environment if it makes sense, else one by the switch. -/
def filterOf (line : CommandLine) (environment : Variables) : Log.Filter :=
  ((environment.value? filterVariable).bind Log.Filter.read?).getD
    (.ofLevel (.ofVerbose line.verbose))

/-- The complaint about a journal that could not be opened. -/
def journalComplaint (path : String) (cause : DiskFault) : String :=
  s!"Warning: failed to initialize logging: Failed to open log file: {path}: {cause.message}"

/-- A world with its journal kept in a given way. -/
def keepJournal (filter : Log.Filter) (sink : Sink) (world : World) : World :=
  { world with journal := { world.journal with filter, sink } }

/-- Opens the journal. One in a file is added to what the file holds. If the file cannot be opened
there is a complaint, and no journal. -/
def openJournal (line : CommandLine) (environment : Variables) (world : World) : World :=
  let filter := filterOf line environment
  match Log.Destination.ofText line.log with
  | .off => keepJournal filter .off world
  | .stdout => keepJournal filter .stdout world
  | .stderr => keepJournal filter .stderr world
  | .file path =>
    match world.disk.target path with
    | .error cause => (keepJournal filter .off world).complain (journalComplaint path cause)
    | .ok place =>
      keepJournal filter (.file place) { world with disk := world.disk.appendAt place .empty }

/-! ### Reports -/

def speaker : String := "config_injector"

def loadingRecord (fault : MasterFault) : Log.Record :=
  ⟨.error, speaker, "Failed to load configuration", [("error", fault.message)]⟩

def resolvedRecord (files : Nat) : Log.Record :=
  ⟨.info, speaker, "All required variables resolve", [("files", toString files)]⟩

def faultRecord (fault : Fault) : Log.Record :=
  ⟨.error, speaker, fault.headline, [("code", fault.code), ("error", fault.message)]⟩

def stoppingRecord (fault : Fault) : Log.Record :=
  ⟨.error, speaker, s!"Stopping due to: {fault.headline}", []⟩

def continuingRecord : Log.Record :=
  ⟨.warn, speaker, "Continuing despite error (policy allows it)", []⟩

/-! ### Commands -/

/-- Reports a fault. The policy decides how the run ends. -/
def report (policy : Policy) (fault : Fault) (world : World) : World × Exit :=
  let world := world.note (faultRecord fault)
  if fault.isFatal policy then (world.note (stoppingRecord fault), .stopped)
  else (world.note continuingRecord, .done)

/-- Applies a change set. -/
def runApply (s : ChangeSet.Setting) (entries : List FileEntry) (world : World) : World × Exit :=
  match ChangeSet.apply s entries world with
  | (world, .ok _) => (world, .done)
  | (world, .error (.fault fault)) => report s.policy fault world
  | (world, .error (.crash sealed)) => (world.complain sealed.message, .crashed)

/-- Checks a change set. Variables without a value are a fault like any other. -/
def runCheck (s : ChangeSet.Setting) (entries : List FileEntry) (world : World) : World × Exit :=
  match ChangeSet.check s entries world.disk with
  | .error fault => report s.policy fault world
  | .ok missing =>
    if missing.isEmpty then (world.note (resolvedRecord entries.length), .done)
    else report s.policy (.missingRequired missing) world

/-- Does what a command line says with a master configuration that was loaded from a place. -/
def runLoaded (line : CommandLine) (environment : Variables) (place : MasterPlace)
    (loaded : MasterConfig) (world : World) : World × Exit :=
  let world := world.note (MasterConfig.loadedRecord place loaded)
  let config := line.adjust loaded
  let (chain, records) := config.chain place.base environment world.disk
  let world := records.foldl (fun world r => world.note r) world
  let s : ChangeSet.Setting := { base := place.base, chain, policy := config.policy }
  match line.command with
  | .apply => runApply s config.replacements world
  | .check => runCheck s config.replacements world

/-- Does what a command line says. -/
def runLine (line : CommandLine) (environment : Variables) (world : World) : World × Exit :=
  let world := openJournal line environment world
  let place := MasterPlace.discover environment line.base? line.configFile?
  match MasterConfig.load world.disk place with
  | .error fault => (world.note (loadingRecord fault), .noConfiguration)
  | .ok loaded => runLoaded line environment place loaded world

/-- A world with more text on its output. -/
def print (text : String) (world : World) : World :=
  { world with journal := { world.journal with out := world.journal.out ++ text } }

/-- **Runs the program.** -/
def run (arguments : List String) (environment : Variables) (world : World) : World × Exit :=
  match CommandLine.ofArguments arguments with
  | .ok line => runLine line environment world
  | .error .help => (print CommandLine.helpText world, .done)
  | .error .version => (print CommandLine.versionText world, .done)
  | .error (.misuse reason) => (world.complain s!"error: {reason.message}", .misused)

/-! ### What a run looks at -/

/-- The names that a run may follow on a disk: those of the journal and of the master
configuration and, once that can be loaded, those of the variable file and of the change set. -/
def namesOf (arguments : List String) (environment : Variables) (disk : Disk) : List String :=
  match CommandLine.ofArguments arguments with
  | .error _ => []
  | .ok line =>
    let place := MasterPlace.discover environment line.base? line.configFile?
    let journal := match Log.Destination.ofText line.log with
      | .file path => [path]
      | _ => []
    let files := match MasterConfig.load disk place with
      | .error _ => []
      | .ok loaded =>
        let config := line.adjust loaded
        config.envFilePath place.base ::
          config.replacements.map fun entry => FileName.join place.base entry.file
    journal ++ place.file :: files

end Program

end ConfigGraft
