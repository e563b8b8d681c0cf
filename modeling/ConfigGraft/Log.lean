/-!
# Log records

What a run reports about itself: records with a level, the part of the program that speaks, a
message and named fields. A filter decides which records are kept, and a kept record is written
as one line behind a time stamp.

Fields hold their final text. A field that shows text as a quoted string is quoted by whoever
makes the record.
-/

namespace ConfigGraft

namespace Log

/-- How important a record is. -/
inductive Level where
  | error
  | warn
  | info
  | debug
  | trace
  deriving DecidableEq, Repr

namespace Level

def name : Level → String
  | .error => "ERROR"
  | .warn => "WARN"
  | .info => "INFO"
  | .debug => "DEBUG"
  | .trace => "TRACE"

/-- The more important, the smaller. -/
def rank : Level → Nat
  | .error => 1
  | .warn => 2
  | .info => 3
  | .debug => 4
  | .trace => 5

/-- The level for a run that is asked to be verbose, or not. -/
def ofVerbose (verbose : Bool) : Level := if verbose then .debug else .info

end Level

/-- One report. -/
structure Record where
  level : Level
  speaker : String
  message : String
  fields : List (String × String) := []
  deriving DecidableEq, Repr

namespace Record

/-- The level, right-aligned to the width of the longest one. -/
def levelText (r : Record) : String :=
  "".pushn ' ' (5 - r.level.name.length) ++ r.level.name

/-- The record as a line of text, without its end: stamp, level, speaker, message, fields. -/
def line (stamp : String) (r : Record) : String :=
  let fields := r.fields.map fun (k, v) => " " ++ k ++ "=" ++ v
  stamp ++ " " ++ r.levelText ++ " " ++ r.speaker ++ ": " ++ r.message ++ String.join fields

end Record

/-! ### Filters -/

/-- A rule of a filter: records of speakers below a name are kept down to a level, or dropped
when there is no level. The empty name covers every speaker. -/
structure Rule where
  speaker : String
  level? : Option Level
  deriving DecidableEq, Repr

/-- A list of rules. The rule with the longest matching name decides. -/
structure Filter where
  rules : List Rule
  deriving DecidableEq, Repr

namespace Filter

/-- Keeps the records of every speaker down to a level. -/
def ofLevel (level : Level) : Filter := ⟨[⟨"", some level⟩]⟩

/-- The rule that decides about a speaker: the longest matching name, of equals the last. -/
def ruleFor? (f : Filter) (speaker : String) : Option Rule :=
  f.rules.foldl (fun best r =>
    if speaker.startsWith r.speaker then
      match best with
      | none => some r
      | some b => if b.speaker.length ≤ r.speaker.length then some r else some b
    else best) none

/-- Whether a record is kept. -/
def keeps (f : Filter) (r : Record) : Bool :=
  match f.ruleFor? r.speaker with
  | some ⟨_, some level⟩ => r.level.rank ≤ level.rank
  | _ => false

/-- A level by its name in any case, or by its number; the outer `none` is a failure, the inner
one switches records off. -/
def readLevel? (text : String) : Option (Option Level) :=
  match text.toLower with
  | "off" | "0" => some none
  | "error" | "1" => some (some .error)
  | "warn" | "2" => some (some .warn)
  | "info" | "3" => some (some .info)
  | "debug" | "4" => some (some .debug)
  | "trace" | "5" => some (some .trace)
  | _ => none

/-- Whether a text can name a speaker. -/
def isSpeaker (text : String) : Bool :=
  text != "" && text.all fun c => c.isAlphanum || c == '_' || c == ':' || c == '-'

/-- Reads one rule: a level, a speaker, or a speaker, an equals sign and a level. -/
def readRule? (text : String) : Option Rule :=
  match readLevel? text with
  | some level? => some ⟨"", level?⟩
  | none =>
    match text.splitOn "=" with
    | [speaker] => if isSpeaker speaker then some ⟨speaker, some .trace⟩ else none
    | [speaker, ""] => if isSpeaker speaker then some ⟨speaker, some .trace⟩ else none
    | [speaker, level] =>
      if isSpeaker speaker then (readLevel? level).map (Rule.mk speaker) else none
    | _ => none

/-- Reads a filter: rules with commas between them. Without any rule only errors are kept. -/
def read? (text : String) : Option Filter := do
  let rules ← ((text.splitOn ",").filter (· != "")).mapM readRule?
  if rules.isEmpty then some (ofLevel .error) else some ⟨rules⟩

end Filter

/-! ### Where records go -/

/-- Where a run writes its records. -/
inductive Destination where
  | off
  | stdout
  | stderr
  | file (path : String)
  deriving DecidableEq, Repr

/-- Reads a destination: a number or word for the usual ones, else the name of a file. -/
def Destination.ofText (text : String) : Destination :=
  if text = "0" ∨ text = "off" then .off
  else if text = "1" ∨ text = "stdout" then .stdout
  else if text = "2" ∨ text = "stderr" then .stderr
  else .file text

end Log

end ConfigGraft
