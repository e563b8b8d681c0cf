import ConfigGraft.CommandLine

/-!
# Reading command lines

Arguments come in four shapes: `--name` or `--name=value`, a cluster of one-letter names behind one
dash, the divider `--`, and plain text. A plain text is the value of the setting that was named
last, or else a command. Settings and switches stand before the command or behind it, each once at
most on either side; of two values of a setting the one behind the command counts.

A setting that was named is settled only when the next name takes effect or its side ends, so what
is wrong with its value shows up there.
-/

namespace ConfigGraft.CommandLine

/-- What is wrong with arguments. -/
inductive Misuse where
  | unknownArgument
  | unknownCommand
  | invalidValue
  | valueForSwitch
  | repeated
  deriving DecidableEq, Repr

/-- Why arguments lead to no run: they ask for information, or something is wrong with them. -/
inductive Detour where
  | help
  | version
  | misuse (reason : Misuse)
  deriving DecidableEq, Repr

/-! ### Names -/

/-- A setting, which takes a value. -/
inductive Setting where
  | configFile
  | base
  | envFile
  | log
  deriving DecidableEq, Repr

/-- Whether the value of a setting names a file, and so cannot be empty. -/
def Setting.isPath : Setting → Bool
  | .log => false
  | _ => true

/-- A switch, which takes none. -/
inductive Switch where
  | noStopOnMissingRequired
  | stopOnError
  | createMissing
  | verbose
  deriving DecidableEq, Repr

/-- What a name stands for. -/
inductive Meaning where
  | setting (s : Setting)
  | switch (s : Switch)
  | help
  | version
  deriving DecidableEq, Repr

/-- The side of the command on which an argument stands. -/
inductive Side where
  | before
  | behind
  deriving DecidableEq, Repr

/-- The meaning of a long name. -/
def Side.long? (side : Side) (name : String) : Option Meaning :=
  match name with
  | "config" => some (.setting .configFile)
  | "base-dir" => some (.setting .base)
  | "env-file" => some (.setting .envFile)
  | "log" => some (.setting .log)
  | "no-stop-on-missing-required" => some (.switch .noStopOnMissingRequired)
  | "stop-on-error" => some (.switch .stopOnError)
  | "create-missing" => some (.switch .createMissing)
  | "verbose" => some (.switch .verbose)
  | "help" => some .help
  | "version" => if side = .before then some .version else none
  | _ => none

/-- The meaning of a letter. -/
def Side.short? (side : Side) (letter : Char) : Option Meaning :=
  match letter with
  | 'c' => some (.setting .configFile)
  | 'b' => some (.setting .base)
  | 'e' => some (.setting .envFile)
  | 'l' => some (.setting .log)
  | 'v' => some (.switch .verbose)
  | 'h' => some .help
  | 'V' => if side = .before then some .version else none
  | _ => none

/-! ### Arguments -/

/-- An argument by its shape. -/
inductive Argument where
  | divider
  | long (name : String) (value? : Option String)
  | cluster (letters : List Char)
  | plain (text : String)
  deriving DecidableEq, Repr

/-- The name and the value of a long argument, behind its dashes. -/
def Argument.ofLong (text : List Char) : Argument :=
  match text.dropWhile (· != '=') with
  | [] => .long (String.ofList text) none
  | _ :: value => .long (String.ofList (text.takeWhile (· != '='))) (some (String.ofList value))

/-- The shape of an argument. A single dash is plain text. -/
def Argument.ofText (text : String) : Argument :=
  match text.toList with
  | ['-', '-'] => .divider
  | '-' :: '-' :: rest => .ofLong rest
  | '-' :: letter :: rest => .cluster (letter :: rest)
  | _ => .plain text

/-! ### What was given -/

/-- The settings and switches that were given on one side of the command. -/
structure Given where
  values : List (Setting × String) := []
  switches : List Switch := []
  /-- The setting that was named last and is not settled, with its value if that has come. -/
  pending? : Option (Setting × Option String) := none
  deriving DecidableEq, Repr

namespace Given

/-- Gives a setting its value. -/
def give (given : Given) (s : Setting) (value : String) : Except Detour Given :=
  if given.values.any (·.1 == s) then .error (.misuse .repeated)
  else if s.isPath && value == "" then .error (.misuse .invalidValue)
  else .ok { given with values := (s, value) :: given.values }

/-- Settles the setting that was named last. -/
def settle (given : Given) : Except Detour Given :=
  match given.pending? with
  | none => .ok given
  | some (_, none) => .error (.misuse .invalidValue)
  | some (s, some value) => { given with pending? := none }.give s value

/-- Turns a switch on. -/
def turnOn (given : Given) (s : Switch) : Except Detour Given :=
  if given.switches.contains s then .error (.misuse .repeated)
  else .ok { given with switches := s :: given.switches }

/-- Lets a name take effect, with the value that is attached to it if there is one. -/
def act (given : Given) : Meaning → Option String → Except Detour Given
  | .setting s, some value => given.settle.bind (·.give s value)
  | .setting s, none => given.settle.map fun given => { given with pending? := some (s, none) }
  | .switch s, none => given.settle.bind (·.turnOn s)
  | .help, none => given.settle.bind fun _ => .error .help
  | .version, none => given.settle.bind fun _ => .error .version
  | .switch _, some _ | .help, some _ | .version, some _ => .error (.misuse .valueForSwitch)

/-- The value that the rest of a cluster attaches to a setting. -/
def attached : List Char → Option String
  | [] => none
  | '=' :: value => some (String.ofList value)
  | value => some (String.ofList value)

/-- Lets the letters of a cluster take effect. A setting takes the rest of the cluster. -/
def actCluster (side : Side) : List Char → Given → Except Detour Given
  | [], given => .ok given
  | letter :: rest, given =>
    match side.short? letter with
    | none => .error (.misuse .unknownArgument)
    | some (.setting s) => given.act (.setting s) (attached rest)
    | some meaning => (given.act meaning none).bind (actCluster side rest)

/-- The value of a setting. -/
def value? (given : Given) (s : Setting) : Option String := given.values.lookup s

/-- Whether a switch is on. -/
def isOn (given : Given) (s : Switch) : Bool := given.switches.contains s

end Given

/-! ### Commands -/

/-- The command of a name. -/
def commandOf? : String → Option Command
  | "apply" => some .apply
  | "check" => some .check
  | _ => none

/-- The answer to a call for help on what the arguments name: one command, itself, or nothing. -/
def helpOn : List String → Detour
  | [] => .help
  | [name] =>
    if name = "help" ∨ (commandOf? name).isSome then .help else .misuse .unknownCommand
  | _ => .misuse .unknownCommand

/-- What is wrong with the first argument behind a divider. -/
def strayBehindDivider (side : Side) (text : String) : Misuse :=
  match side with
  | .before =>
    if text = "help" ∨ (commandOf? text).isSome then .unknownArgument else .unknownCommand
  | .behind => .unknownArgument

/-! ### Whole lines -/

/-- What a plain text means where no value is waited for: on the first side a command, with which
that side ends. -/
def readPlain (side : Side) (text : String) (rest : List String) :
    Except Detour (Command × List String) :=
  match side with
  | .behind => .error (.misuse .unknownArgument)
  | .before =>
    if text = "help" then .error (helpOn rest)
    else match commandOf? text with
      | some command => .ok (command, rest)
      | none => .error (.misuse .unknownCommand)

/-- Reads one side of a command line: what was given there, and the command that ends it together
with the arguments behind that. -/
def readSide (side : Side) :
    List String → Given → Except Detour (Given × Option (Command × List String))
  | [], given => .ok (given, none)
  | text :: rest, given =>
    match Argument.ofText text with
    | .divider =>
      match rest with
      | [] => .ok (given, none)
      | stray :: _ => .error (.misuse (strayBehindDivider side stray))
    | .long name value? =>
      match side.long? name with
      | none => .error (.misuse .unknownArgument)
      | some meaning => (given.act meaning value?).bind (readSide side rest)
    | .cluster letters => (Given.actCluster side letters given).bind (readSide side rest)
    | .plain text =>
      match given.pending? with
      | some (s, none) => readSide side rest { given with pending? := some (s, some text) }
      | _ => (readPlain side text rest).map fun found => (given, some found)

/-- The command line that says what was given on both sides of a command. -/
def ofGiven (command : Command) (front back : Given) : CommandLine where
  command := command
  configFile? := (back.value? .configFile).or (front.value? .configFile)
  base? := (back.value? .base).or (front.value? .base)
  envFile? := (back.value? .envFile).or (front.value? .envFile)
  log := ((back.value? .log).or (front.value? .log)).getD "2"
  noStopOnMissingRequired :=
    front.isOn .noStopOnMissingRequired || back.isOn .noStopOnMissingRequired
  stopOnError := front.isOn .stopOnError || back.isOn .stopOnError
  createMissing := front.isOn .createMissing || back.isOn .createMissing
  verbose := front.isOn .verbose || back.isOn .verbose

/-- **Reads the arguments of a run.** Without a command, the change set is applied. -/
def ofArguments (arguments : List String) : Except Detour CommandLine := do
  let (front, found?) ← readSide .before arguments {}
  match found? with
  | none => return ofGiven .apply (← front.settle) {}
  | some (command, rest) =>
    let (back, _) ← readSide .behind rest {}
    let back ← back.settle
    let front ← front.settle
    return ofGiven command front back

end ConfigGraft.CommandLine
