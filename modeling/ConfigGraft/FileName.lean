/-!
# File names

Names of files as text: how a name relative to a directory is written, and which name the parent
directory of a file has. Nothing is normalised on the way, so a name shows what it was made from.
-/

namespace ConfigGraft.FileName

/-- The name `name` as seen from the directory `base`. A name that starts at the root stands for
itself; an empty base adds nothing. -/
def join (base name : String) : String :=
  if name.startsWith '/' then name
  else if base = "" ∨ base.endsWith '/' then base ++ name
  else base ++ "/" ++ name

/-- The parts of a name between its slashes. -/
def parts (name : String) : List String := (name.toList.splitOn '/').map String.ofList

/-- Drops parts that say nothing from the end of a reversed list of parts: empty ones, and `.`
where a part stands before it. -/
def dropSilent : List String → List String
  | "" :: rest => dropSilent rest
  | "." :: part :: rest => dropSilent (part :: rest)
  | parts => parts

/-- Drops silent parts behind the root: what is left of a name that starts with a slash. -/
def dropSilentRooted : List String → List String
  | "" :: rest => dropSilentRooted rest
  | "." :: rest => dropSilentRooted rest
  | parts => parts

/-- The name of the directory that holds a file; the root and the empty name have none. -/
def parent? (name : String) : Option String :=
  match parts name with
  | "" :: below =>
    match dropSilentRooted below.reverse with
    | [] => none
    | _ :: up => some ("/" ++ "/".intercalate (dropSilentRooted up).reverse)
  | all =>
    match dropSilent all.reverse with
    | [] => none
    | _ :: up => some ("/".intercalate (dropSilent up).reverse)

end ConfigGraft.FileName
