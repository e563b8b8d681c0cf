import ConfigGraft.Variables
import ConfigGraft.Text.Blank
import ConfigGraft.Text.Lines

/-!
# Variable files

A variable file gives a name a value on each line, as `NAME=VALUE`. Blank lines and lines that
begin with `#` say nothing. Name and value lose the blanks around them, and a value loses one pair
of quotes around it. The last line for a name counts. A line that is neither is left out and
reported.
-/

namespace ConfigGraft.VariableFile

/-- What one line of a variable file says. -/
inductive Line where
  | nothing
  | noEquals (content : List Char)
  | noName
  | assign (name value : List Char)
  deriving DecidableEq, Repr

/-- Takes a pair of quotes of one kind off a value; a single quote sign is no pair. -/
def withoutPair (quote : Char) (value : List Char) : Option (List Char) :=
  match value with
  | c :: inner => if c = quote ∧ inner.getLast? = some quote then some inner.dropLast else none
  | [] => none

/-- Takes one pair of quotes off a value, if there is one. -/
def unquote (value : List Char) : List Char :=
  match withoutPair '"' value with
  | some inner => inner
  | none => (withoutPair '\x27' value).getD value

/-- Reads a line. -/
def Line.ofText (raw : List Char) : Line :=
  match Text.trim raw with
  | [] => .nothing
  | '#' :: _ => .nothing
  | line =>
    match line.dropWhile (· != '=') with
    | [] => .noEquals line
    | _ :: value =>
      match Text.trim (line.takeWhile (· != '=')) with
      | [] => .noName
      | name => .assign name (unquote (Text.trim value))

/-- The lines of a file, read. -/
def readLines (content : String) : List Line :=
  (Text.lines content.toList).map Line.ofText

/-- Lets a line have its effect on the variables. -/
def assignLine (vars : Variables) : Line → Variables
  | .assign name value => vars.insert (String.ofList name) (String.ofList value)
  | _ => vars

/-- The variables of a file. -/
def parse (content : String) : Variables :=
  (readLines content).foldl assignLine {}

/-- The lines that were left out, with their numbers counted from one. -/
def rejected (content : String) : List (Nat × Line) :=
  ((readLines content).zipIdx 1).filterMap fun (line, n) =>
    match line with
    | .noEquals _ | .noName => some (n, line)
    | _ => none

end ConfigGraft.VariableFile
